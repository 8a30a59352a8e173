import Pandaemonium.Toml.Sticky

/-!
# `Toml.Positions` — line, column and span of every token

The decoder moves its line and column along with its offset, chunk by chunk; `lineColForOffset` computes
them from the whole text before an offset. `Tracked` says that the two agree. Reading a chunk of the text
keeps it (`Tracked.advanceBytes`), whichever way the text falls into chunks, and so it holds in every
state of a run. A token is marked where the decoder stands when it starts, and no token starts before the
one before it has ended (`tokenPositions`).
-/

namespace Pandaemonium.Toml

open List

variable {d' : Decoder} {scalar : TokenScalar}

namespace Decoder

/-! ## Positions over two pieces of text -/

theorem lastLine_append (a b : Bytes) :
    lastLine (a ++ b) = if b.contains 0x0A then lastLine b else lastLine a ++ b := by
  unfold lastLine
  rw [reverse_append, takeWhile_append]
  have hlen : (b.reverse.takeWhile (· ≠ 0x0A)).length = b.reverse.length ↔ b.contains 0x0A = false := by
    constructor
    · intro h
      have hall := takeWhile_prefix (p := fun c : UInt8 => decide (c ≠ 0x0A)) (l := b.reverse)
      have heq := hall.eq_of_length h
      rw [Bool.eq_false_iff]
      intro hc
      have hmem : (0x0A : UInt8) ∈ b.reverse.takeWhile (· ≠ 0x0A) := by
        rw [heq]
        simpa using hc
      have := mem_takeWhile_imp hmem
      simp at this
    · intro h
      rw [takeWhile_eq_self_iff.mpr]
      intro c hc
      rw [decide_eq_true_iff]
      rintro rfl
      rw [Bool.eq_false_iff] at h
      apply h
      simpa using hc
  by_cases hb : b.contains 0x0A = true
  · rw [if_pos hb, if_neg (fun h => by rw [hlen.mp h] at hb; cases hb)]
  · rw [if_neg hb, if_pos (hlen.mpr (by simpa using hb)), reverse_append, reverse_reverse]

/-- The position behind a chunk, from the position before it. -/
theorem lineColForOffset_add {data raw : Bytes} {off : Nat} (h : raw <+: data.drop off) :
    lineColForOffset data (off + raw.length) =
      advancePosition (lineColForOffset data off).1 (lineColForOffset data off).2 raw := by
  have htake : data.take (off + raw.length) = data.take off ++ raw := by
    rw [take_add, ← prefix_iff_eq_take.mp h]
  unfold lineColForOffset advancePosition
  dsimp only
  rw [htake, lastLine_append]
  have hlines : Scan.countLines (data.take off ++ raw) =
      Scan.countLines (data.take off) + Scan.countLines raw := count_append
  by_cases hc : raw.contains 0x0A = true
  · rw [if_pos hc, if_pos hc, hlines, Nat.add_assoc]
  have hzero : Scan.countLines raw = 0 := by
    apply count_eq_zero_of_not_mem
    simpa using hc
  rw [if_neg hc, if_neg hc, hlines, hzero]
  unfold displayColumnDelta
  rw [countP_append, Nat.add_zero, Nat.add_assoc]

/-! ## The invariant -/

/-- **The line and column kept are those of the offset.** -/
def Tracked (d : Decoder) : Prop :=
  d.trackTokenPositions = true → (d.line, d.col) = lineColForOffset d.buf d.off

/-- Equal where the position is concerned. -/
structure SamePosition (d d' : Decoder) : Prop where
  buf : d'.buf = d.buf
  off : d'.off = d.off
  line : d'.line = d.line
  col : d'.col = d.col
  trackTokenPositions : d'.trackTokenPositions = d.trackTokenPositions

variable {d : Decoder}

theorem SamePosition.tracked (hs : SamePosition d d') (h : d.Tracked) : d'.Tracked := by
  intro ht
  rw [hs.trackTokenPositions] at ht
  rw [hs.line, hs.col, hs.buf, hs.off]
  exact h ht

/-- Reading a chunk of the text keeps the position. -/
theorem Tracked.advanceBytes (h : d.Tracked) {raw : Bytes} (hraw : raw <+: d.rest) :
    (d.advanceBytes raw).Tracked := by
  intro ht
  have ht' : d.trackTokenPositions = true := ht
  have hpos := h ht'
  show ((if d.trackTokenPositions then advancePosition d.line d.col raw else (d.line, d.col)).1,
    (if d.trackTokenPositions then advancePosition d.line d.col raw else (d.line, d.col)).2) =
      lineColForOffset d.buf (d.off + raw.length)
  rw [if_pos ht', lineColForOffset_add hraw, ← hpos]

theorem Tracked.take (h : d.Tracked) (n : Nat) : (d.advanceBytes (d.rest.take n)).Tracked :=
  h.advanceBytes ( take_prefix n d.rest)

theorem Tracked.skipSpaces (h : d.Tracked) : d.skipSpaces.Tracked := by
  fun_induction Decoder.skipSpaces d with
  | case1 d n hn ih =>
    apply ih
    unfold takeBlanks
    split
    · exact SamePosition.tracked ⟨rfl, rfl, rfl, rfl, rfl⟩ (h.take n)
    · exact h.take n
  | case2 | case4 | case6 => exact h
  | case3 d n hn t hr hv ih =>
    apply ih
    have hpre : [0x0D, 0x0A] <+: d.rest := ⟨t, by rw [hr]; rfl⟩
    exact SamePosition.tracked ⟨rfl, rfl, rfl, rfl, rfl⟩ (h.advanceBytes hpre)
  | case5 d n hn t hr hv ih =>
    apply ih
    have hpre : [0x0A] <+: d.rest := ⟨t, by rw [hr]; rfl⟩
    exact SamePosition.tracked ⟨rfl, rfl, rfl, rfl, rfl⟩ (h.advanceBytes hpre)

/-- The position of an offset, looked up or recomputed. -/
theorem Tracked.computeLineCol (h : d.Tracked) (ht : d.trackTokenPositions = true)
    (off : Nat) : d.computeLineCol off = lineColForOffset d.buf off := by
  unfold Decoder.computeLineCol
  split
  · rename_i hc
    rw [Bool.and_eq_true, beq_iff_eq] at hc
    rw [hc.2]
    exact h ht
  · rfl

/-! ## Tokens -/

/-- Where a token read at `d` stands, and what the decoder notes about it. -/
structure Marked (d : Decoder) (tok : RawToken) (d' : Decoder) : Prop where
  nonempty : tok.bytes ≠ []
  slice : tok.bytes <+: d.rest
  offset : tok.offset = d.off
  stop : d.off + tok.bytes.length ≤ d'.off
  position : d.Tracked → d.trackTokenPositions = true →
    (d'.tokenLine, d'.tokenCol) = lineColForOffset d.buf d.off

/-- A result of a scan from `d` keeps the position, and a token of it is marked. -/
structure Marks (d : Decoder) (r : Outcome RawToken × Decoder) : Prop where
  tracked : d.Tracked → r.2.Tracked
  token : ∀ tok, r.1 = .ok tok → d.Marked tok r.2

section

variable {d : Decoder}

theorem marks_error {e : Err} (h : d.Tracked → d'.Tracked) : d.Marks (.error e, d') := by
  refine ⟨h, ?_⟩
  intro tok htok
  cases htok

theorem recordErr_marks (e : Err) : d.Marks (d.recordErr e) :=
  marks_error (SamePosition.tracked ⟨rfl, rfl, rfl, rfl, rfl⟩)

theorem syntaxError_marks (msg : String) (off : Nat) : d.Marks (d.syntaxError msg off) :=
  recordErr_marks _

theorem limitError_marks (limit : LimitName) (value start stop : Nat) :
    d.Marks (d.limitError limit value start stop) := recordErr_marks _

theorem fail_marks (base : Nat) (f : Fault) : d.Marks (d.fail base f) := by
  cases f with
  | raised msg off => exact syntaxError_marks msg _
  | recorded e => exact recordErr_marks e
  | limit name value start stop => exact limitError_marks name value _ _
  | returned e => exact marks_error id

variable {kind : TokenKind}

/-- What `makeToken` notes is not looked at when the text is read. -/
theorem makeToken_tracked {raw : Bytes} {off : Nat} (h : d.Tracked) :
    (d.makeToken kind raw off scalar).2.Tracked :=
  SamePosition.tracked ⟨rfl, rfl, rfl, rfl, rfl⟩ h

/-- **A token made at the offset and the text read over it.** What else the scan sets is no part of the
    position. -/
theorem makeToken_marks {raw text : Bytes} (hne : raw ≠ []) (hraw : raw <+: text)
    (htext : text <+: d.rest) (hs : SamePosition ((d.makeToken kind raw d.off scalar).2.advanceBytes text) d')
    (hline : d'.tokenLine = (d.makeToken kind raw d.off scalar).2.tokenLine)
    (hcol : d'.tokenCol = (d.makeToken kind raw d.off scalar).2.tokenCol) :
    d.Marks (.ok (d.makeToken kind raw d.off scalar).1, d') where
  tracked h := hs.tracked ((makeToken_tracked h).advanceBytes htext)
  token := by
    rintro tok htok
    cases htok
    refine ⟨hne, hraw.trans htext, rfl, ?_, ?_⟩
    · rw [hs.off]
      exact Nat.add_le_add_left hraw.length_le d.off
    intro h ht
    rw [hline, hcol]
    show ((if d.trackTokenPositions then (d.computeLineCol d.off).1 else d.tokenLine),
      (if d.trackTokenPositions then (d.computeLineCol d.off).2 else d.tokenCol)) = _
    rw [if_pos ht, if_pos ht, h.computeLineCol ht]

/-- A token that is the text read over. -/
theorem token_marks {n : Nat} (hrest : d.rest ≠ []) (hn : 0 < n)
    (hs : SamePosition ((d.makeToken kind (d.rest.take n) d.off scalar).2.advanceBytes (d.rest.take n)) d')
    (hline : d'.tokenLine = (d.makeToken kind (d.rest.take n) d.off scalar).2.tokenLine)
    (hcol : d'.tokenCol = (d.makeToken kind (d.rest.take n) d.off scalar).2.tokenCol) :
    d.Marks (.ok (d.makeToken kind (d.rest.take n) d.off scalar).1, d') := by
  refine makeToken_marks ?_ (prefix_refl _) ( take_prefix n d.rest) hs hline hcol
  intro h
  rcases take_eq_nil_iff.mp h with h0 | h0
  · omega
  · exact hrest h0

/-! ## The scan functions -/

section

variable (hrest : d.rest ≠ [])
include hrest

theorem scanComment_marks : d.Marks d.scanComment := by
  unfold scanComment
  split
  · exact fail_marks _ _
  rename_i n hn
  obtain ⟨c, t, hct⟩ := exists_cons_of_ne_nil hrest
  refine token_marks hrest ?_ ⟨rfl, rfl, rfl, rfl, rfl⟩ rfl rfl
  rw [hct] at hn
  exact scanCommentEnd_pos hn

theorem scanArrayStart_marks : d.Marks d.scanArrayStart :=
  token_marks hrest Nat.one_pos ⟨rfl, rfl, rfl, rfl, rfl⟩ rfl rfl

theorem scanArrayEnd_marks : d.Marks d.scanArrayEnd :=
  token_marks hrest Nat.one_pos ⟨rfl, rfl, rfl, rfl, rfl⟩ rfl rfl

theorem scanInlineTableStart_marks : d.Marks d.scanInlineTableStart :=
  token_marks hrest Nat.one_pos ⟨rfl, rfl, rfl, rfl, rfl⟩ rfl rfl

theorem scanInlineTableEnd_marks : d.Marks d.scanInlineTableEnd :=
  token_marks hrest Nat.one_pos ⟨rfl, rfl, rfl, rfl, rfl⟩ rfl rfl

theorem scalarToken_marks (kind : TokenKind) {n : Nat} (hn : 0 < n) (scalar : TokenScalar) :
    d.Marks (d.scalarToken kind n scalar) :=
  token_marks hrest hn ⟨rfl, rfl, rfl, rfl, rfl⟩ rfl rfl

end

/-- A key that is one has bytes. -/
theorem key_ne_nil {key : Bytes} {parts : List Bytes}
    (h : (if isSimpleBareKey key then .ok [key] else parseDottedKey key) = Except.ok parts) : key ≠ [] := by
  rintro rfl
  have hbad : (if isSimpleBareKey [] then .ok [[]] else parseDottedKey []).toOption = none := by
    decide +kernel
  rw [h] at hbad
  cases hbad

theorem trimRight_take (p : UInt8 → Bool) (raw : Bytes) : trimRight p raw <+: raw := by
  have h := dropWhile_suffix p (l := raw.reverse)
  rw [← reverse_prefix, reverse_reverse] at h
  exact h

theorem scanKeyToken_marks : d.Marks d.scanKeyToken := by
  unfold scanKeyToken
  split
  · exact fail_marks _ _
  rename_i i hi
  split
  · exact syntaxError_marks _ _
  dsimp only
  split
  · exact recordErr_marks _
  rename_i parts hkey
  split
  · exact limitError_marks _ _ _ _
  split
  · -- the key ends before the blanks and the equals sign that are read over with it
    refine makeToken_marks (key_ne_nil hkey) ?_ ( take_prefix _ d.rest) ⟨rfl, rfl, rfl, rfl, rfl⟩ rfl rfl
    refine (trimRight_take _ _).trans (take_prefix_take_left ?_)
    omega
  · exact syntaxError_marks _ _

theorem scanStringToken_marks (hrest : d.rest ≠ []) : d.Marks d.scanStringToken := by
  unfold scanStringToken
  split
  · exact fail_marks _ _
  rename_i n hn
  split
  · exact limitError_marks _ _ _ _
  · exact scalarToken_marks hrest _ (scanString_pos hn) _

theorem scanBareToken_marks (hrest : d.rest ≠ []) : d.Marks d.scanBareToken := by
  unfold scanBareToken
  dsimp only
  split
  · exact syntaxError_marks _ _
  rename_i hn
  split
  · exact syntaxError_marks _ _
  · exact scalarToken_marks hrest _ (Nat.pos_of_ne_zero hn) _

theorem scanValueToken_marks (hrest : d.rest ≠ []) : d.Marks d.scanValueToken := by
  unfold scanValueToken
  split
  · exact scanStringToken_marks hrest
  · exact scanStringToken_marks hrest
  · exact scanArrayStart_marks hrest
  · exact scanInlineTableStart_marks hrest
  · exact scanArrayEnd_marks hrest
  · exact scanInlineTableEnd_marks hrest
  · exact scanComment_marks hrest
  · exact scanBareToken_marks hrest

theorem scanHeader_marks (hrest : d.rest ≠ []) (array : Bool) {width : Nat} (hw : 0 < width)
    (kind : TokenKind) : d.Marks (d.scanHeader array width kind) := by
  unfold scanHeader
  split
  · exact fail_marks _ _
  rename_i i hi
  split
  · exact fail_marks _ _
  dsimp only
  split
  · -- the header is read over before its length is looked at
    apply marks_error
    intro h
    refine SamePosition.tracked ⟨rfl, rfl, rfl, rfl, rfl⟩
      ((makeToken_tracked h).advanceBytes ( take_prefix (i + width) d.rest))
  · exact token_marks hrest (by omega) ⟨rfl, rfl, rfl, rfl, rfl⟩ rfl rfl

theorem atEnd_marks : d.Marks d.atEnd := by
  unfold atEnd
  split
  · exact syntaxError_marks _ _
  · exact marks_error id

/-- A turn that returns marks its token; one that goes round keeps the position. -/
def MarksTurn (d : Decoder) : Turn Decoder (Outcome RawToken × Decoder) → Prop
  | .again d' => d.Tracked → d'.Tracked
  | .done r => d.Marks r

theorem dispatch_marks (hrest : d.rest ≠ []) (ch : UInt8) : d.MarksTurn (d.dispatch ch) := by
  unfold dispatch
  split
  · split
    · exact syntaxError_marks _ _
    · exact scanArrayStart_marks hrest
  · split
    · exact syntaxError_marks _ _
    · exact scanInlineTableStart_marks hrest
  · exact scanArrayEnd_marks hrest
  · exact scanInlineTableEnd_marks hrest
  · exact scanComment_marks hrest
  · exact syntaxError_marks _ _
  · split
    · exact syntaxError_marks _ _
    · intro h
      exact SamePosition.tracked ⟨rfl, rfl, rfl, rfl, rfl⟩ (h.take 1)
  · split
    · split
      · exact syntaxError_marks _ _
      · exact scanValueToken_marks hrest
    · split
      · exact syntaxError_marks _ _
      · exact scanKeyToken_marks

end

/-- **One turn**, from the state behind the blanks. -/
theorem readTokenIter_marks (d : Decoder) : d.skipSpaces.MarksTurn d.readTokenIter := by
  unfold readTokenIter
  split
  · rename_i hempty
    rw [List.isEmpty_iff] at hempty
    rw [skipSpaces_nil hempty]
    exact atEnd_marks
  dsimp only
  split
  · exact atEnd_marks
  rename_i ch t hct
  have hrest : d.skipSpaces.rest ≠ [] := by simp [hct]
  split
  · split
    · exact scanComment_marks hrest
    split
    · exact id
    · exact syntaxError_marks _ _
  split
  · split
    · exact scanHeader_marks hrest _ (by decide) _
    · exact scanHeader_marks hrest _ (by decide) _
  · exact dispatch_marks hrest ch

/-! ## Runs -/

theorem newDecoderBytes_tracked (data : Bytes) (opts : List DecoderOption) :
    (newDecoderBytes data opts).Tracked := by
  obtain ⟨l, t, h⟩ := foldl_applyOption opts (start data)
  have hstart : ({ start data with limits := l, trackTokenPositions := t } : Decoder).Tracked := fun _ => rfl
  unfold newDecoderBytes
  rw [h]
  dsimp only
  split
  · exact SamePosition.tracked ⟨rfl, rfl, rfl, rfl, rfl⟩ hstart
  split
  · exact SamePosition.tracked ⟨rfl, rfl, rfl, rfl, rfl⟩ hstart
  unfold skipBOM
  split
  · exact hstart.take 3
  · exact hstart

/-- **A step lemma**: a turn keeps the position. -/
theorem Tracked.turn (h : d.Tracked) : (turnState d.readTokenIter).Tracked := by
  have hturn := readTokenIter_marks d
  cases ht : d.readTokenIter with
  | again d' =>
    rw [ht] at hturn
    exact hturn h.skipSpaces
  | done r =>
    rw [ht] at hturn
    exact Marks.tracked hturn h.skipSpaces

/-- **A run lemma**: the position of every state a run passes through. -/
theorem Reachable.tracked {d₀ : Decoder} (h : Reachable d₀ d) (h₀ : d₀.Tracked) : d.Tracked := by
  induction h with
  | start => exact h₀
  | turn _ _ ih => exact ih.turn

/-- Every call that returns a token has marked it, in a state ahead of where the call began. -/
theorem readToken_marked {tok : RawToken} (h : d.readToken = (.ok tok, d')) :
    ∃ e, Before d e ∧ (d.Tracked → e.Tracked) ∧ e.Marked tok d' := by
  cases herr : d.err with
  | some e => rw [readToken, herr] at h; cases h
  | none =>
    cases hl : Loop.loop (fun d => d.rest.length) readTokenIter d with
    | none => rw [readToken, herr] at h; simp only [hl] at h; cases h
    | some r =>
      rw [readToken_of_loop herr hl] at h
      subst h
      refine Loop.loop_induction
        (motive := fun d r => r = (.ok tok, d') →
          ∃ e, Before d e ∧ (d.Tracked → e.Tracked) ∧ e.Marked tok d') ?_ ?_ hl rfl
      · rintro f r hturn rfl
        have hm := readTokenIter_marks f
        rw [hturn] at hm
        exact ⟨f.skipSpaces, skipSpaces_before f, Tracked.skipSpaces, hm.token tok rfl⟩
      · intro f f' r hturn _ _ ih hr
        obtain ⟨e, hb, ht, hm⟩ := ih hr
        have hkeep := readTokenIter_marks f
        rw [hturn] at hkeep
        exact ⟨e, (again_before hturn).trans hb, fun hf => ht (hkeep hf.skipSpaces), hm⟩

theorem readToken_le (d : Decoder) : d.off ≤ d.readToken.2.off := by
  rcases readToken_cases d with ⟨e, -, hr⟩ | ⟨-, hr⟩ | ⟨-, e, hb, hr⟩
  · rw [hr]
  · rw [hr]
  refine hb.le.trans ?_
  generalize d.readToken = r at hr ⊢
  obtain ⟨o, d'⟩ := r
  cases o with
  | ok tok => exact Nat.le_of_lt (TokenStep.progress hr)
  | error e => exact ErrorStep.le hr
  | hang => exact hr.elim

theorem afterCalls_mono {m n : Nat} (h : m ≤ n) : (d.afterCalls m).off ≤ (d.afterCalls n).off := by
  induction h with
  | refl => exact Nat.le_refl _
  | step _ ih => rw [afterCalls_succ]; exact ih.trans (readToken_le _)

theorem Reachable.afterCalls {d₀ : Decoder} (h : Reachable d₀ d) (n : Nat) :
    Reachable d₀ (d.afterCalls n) := by
  induction n generalizing d with
  | zero => exact h
  | succ n ih => exact ih h.readToken

theorem afterCalls_buf (d : Decoder) (n : Nat) : (d.afterCalls n).buf = d.buf := by
  induction n generalizing d with
  | zero => rfl
  | succ n ih => exact (ih d.readToken.2).trans (readToken_buf d)

/-- A call whose token is made public. -/
theorem readPublicToken_ok {tok : Token} (h : d.readPublicToken.1 = .ok tok) :
    ∃ raw, d.readToken = (.ok raw, d.readToken.2) ∧
      tok.bytes = raw.bytes ∧ tok.offset = raw.offset ∧
      (d.readToken.2.trackTokenPositions = true →
        (tok.line, tok.col) = (d.readToken.2.tokenLine, d.readToken.2.tokenCol)) := by
  unfold readPublicToken at h
  cases hread : d.readToken with
  | mk o d' =>
    rw [hread] at h
    cases o with
    | ok raw =>
      cases h
      refine ⟨raw, rfl, rfl, rfl, ?_⟩
      intro ht
      have ht : d'.trackTokenPositions = true := ht
      simp [ht]
    | error e | hang => cases h

/-- **Token positions** in the run from `d₀`: in every state the line and column kept are those of the
    offset; every token is a piece of the text that is not empty, with the line and column of its
    offset; and it starts at or after the end of every token before it. -/
structure TokenPositions (d₀ : Decoder) : Prop where
  state : ∀ d, Reachable d₀ d → (d.line, d.col) = lineColForOffset d.buf d.off
  slice : ∀ n tok, (d₀.afterCalls n).readPublicToken.1 = .ok tok →
    tok.bytes ≠ [] ∧ (d₀.buf.drop tok.offset).take tok.bytes.length = tok.bytes
  position : ∀ n tok, (d₀.afterCalls n).readPublicToken.1 = .ok tok →
    (tok.line, tok.col) = lineColForOffset d₀.buf tok.offset
  order : ∀ m n tok tok', m < n → (d₀.afterCalls m).readPublicToken.1 = .ok tok →
    (d₀.afterCalls n).readPublicToken.1 = .ok tok' → tok.offset + tok.bytes.length ≤ tok'.offset

theorem Reachable.tracking {d₀ : Decoder} (h : Reachable d₀ d) :
    d.trackTokenPositions = d₀.trackTokenPositions := by
  refine h.invariant (P := fun d => d.trackTokenPositions = d₀.trackTokenPositions) rfl ?_ ?_ ?_
  · intro d e hb hd
    exact hb.trackTokenPositions.trans hd
  · intro d tok d' ht hd
    rw [ht.control.trackTokenPositions, ← hd]
    cases tok.kind <;> rfl
  · intro d d' he hd
    exact he.control.trackTokenPositions.trans hd

/-- A public token of a call, and the state that marked it. -/
theorem readPublicToken_marked {tok : Token} (h : d.readPublicToken.1 = .ok tok) :
    ∃ e raw, Before d e ∧ (d.Tracked → e.Tracked) ∧ e.Marked raw d.readToken.2 ∧
      tok.bytes = raw.bytes ∧ tok.offset = raw.offset ∧
      (d.readToken.2.trackTokenPositions = true →
        (tok.line, tok.col) = (d.readToken.2.tokenLine, d.readToken.2.tokenCol)) := by
  obtain ⟨raw, hread, hpub⟩ := readPublicToken_ok h
  obtain ⟨e, hb, ht, hm⟩ := readToken_marked hread
  exact ⟨e, raw, hb, ht, hm, hpub⟩

/-- **The positions of a run that tracks them are right**, over every input. -/
theorem tokenPositions (data : Bytes) (opts : List DecoderOption)
    (htrack : (newDecoderBytes data opts).trackTokenPositions = true) :
    TokenPositions (newDecoderBytes data opts) := by
  have h₀ := newDecoderBytes_tracked data opts
  have hreach : ∀ n, Reachable (newDecoderBytes data opts) ((newDecoderBytes data opts).afterCalls n) :=
    fun n => Reachable.start.afterCalls n
  refine ⟨?_, ?_, ?_, ?_⟩
  · intro d hr
    exact hr.tracked h₀ (hr.tracking.trans htrack)
  · intro n tok h
    obtain ⟨e, raw, hb, -, hm, hbytes, hoff, -⟩ := readPublicToken_marked h
    have hslice := prefix_iff_eq_take.mp hm.slice
    rw [rest, hb.buf, afterCalls_buf, ← hm.offset] at hslice
    rw [hbytes, hoff]
    exact ⟨hm.nonempty, hslice.symm⟩
  · intro n tok h
    obtain ⟨e, raw, hb, ht, hm, -, hoff, hpos⟩ := readPublicToken_marked h
    rw [hpos ((hreach n).readToken.tracking.trans htrack)]
    have hmark := hm.position (ht ((hreach n).tracked h₀))
      (hb.trackTokenPositions.trans ((hreach n).tracking.trans htrack))
    rw [hmark, hb.buf, afterCalls_buf, hoff, hm.offset]
  · intro m n tok tok' hmn h h'
    obtain ⟨e, raw, -, -, hm, hbytes, hoff, -⟩ := readPublicToken_marked h
    obtain ⟨e', raw', hb', -, hm', -, hoff', -⟩ := readPublicToken_marked h'
    have hcalls := afterCalls_mono (d := newDecoderBytes data opts) (Nat.succ_le_of_lt hmn)
    rw [afterCalls_succ] at hcalls
    have hstop := hm.stop
    have hle := hb'.le
    rw [hbytes, hoff, hm.offset, hoff', hm'.offset]
    omega

/-- A multi-line string between CRLF lines, behind a byte order mark. -/
theorem tokenPositions_crlf :
    TokenPositions (newDecoderBytes (bom ++ ascii "a = \'\'\'x\r\ny\'\'\'\r\nb = 1\n") []) :=
  tokenPositions _ _ (by decide +kernel)

end Decoder

end Pandaemonium.Toml
