import Pandaemonium.Toml.Progress
import Pandaemonium.Toml.Statements

/-!
# `Toml.DocumentGrammar` — which token sequences make a document

A document should be a sequence of statements: comments, headers, and keys each followed by the tokens of
one value. The statement loop rejects any other token only before the first header; below a header it
passes over it (`Turns.stray`). So an accepted document is a sequence of statements exactly when the
loop never stands in front of a `]`, a `}` or a `{`: `parseDocument_statements_iff`. Every other stray
token needs one of these three in front of it, because no value is expected and no container is open
between two statements (`Clean`).
-/

namespace Pandaemonium.Toml

open Decoder

/-! ## Statements on token kinds -/

inductive Statement : List TokenKind → Prop
  | comment : Statement [.comment]
  | table : Statement [.tableHeader]
  | arrayTable : Statement [.arrayTableHeader]
  | keyValue {vs : List TokenKind} : Forms .value vs → Statement (.key :: vs)

/-- **A concatenation of statements.** -/
inductive Statements : List TokenKind → Prop
  | nil : Statements []
  | cons {st ks : List TokenKind} : Statement st → Statements ks → Statements (st ++ ks)

theorem Statement.head {st : List TokenKind} (h : Statement st) :
    ∃ k t, st = k :: t ∧ startsStatement k = true := by
  cases h with
  | comment | table | arrayTable | keyValue => exact ⟨_, _, rfl, rfl⟩

theorem Statement.prefix_free {as bs xs ys : List TokenKind} (ha : Statement as) (hb : Statement bs)
    (h : as ++ xs = bs ++ ys) : as = bs := by
  cases ha with
  | comment | table | arrayTable =>
    cases hb with
    | comment | table | arrayTable | keyValue => injection h with h1 _; first | rfl | cases h1
  | keyValue hv =>
    cases hb with
    | comment | table | arrayTable => injection h with h1 _; cases h1
    | keyValue hv' =>
      injection h with _ h2
      rw [hv.prefix_free hv' h2]

/-- What follows a sequence of statements inside another one is a sequence of statements. -/
theorem Statements.cancel {as bs : List TokenKind} (ha : Statements as)
    (h : Statements (as ++ bs)) : Statements bs := by
  induction ha with
  | nil => exact h
  | @cons st ks hs _ ih =>
    apply ih
    rw [List.append_assoc] at h
    generalize hall : st ++ (ks ++ bs) = all at h
    cases h with
    | nil =>
      obtain ⟨k, t, rfl, -⟩ := hs.head
      cases hall
    | cons hs' hrest =>
      obtain rfl := hs.prefix_free hs' hall
      rw [List.append_cancel_left hall]
      exact hrest

/-- No sequence of statements begins with a stray token. -/
theorem Statements.head {k : TokenKind} {ks : List TokenKind} (h : Statements (k :: ks)) :
    startsStatement k = true := by
  generalize hall : k :: ks = all at h
  cases h with
  | nil => cases hall
  | cons hs _ =>
    obtain ⟨k', t, rfl, hk'⟩ := hs.head
    injection hall with h1 _
    rw [h1]; exact hk'

/-! ## Between two statements -/

/-- The next byte is a bracket that no statement begins with. -/
def strayBracket (d : Decoder) : Bool :=
  match d.skipSpaces.rest.head? with
  | some c => c == 0x5D || c == 0x7D || c == 0x7B
  | none => false

/-- The text is at the end of a line. -/
def atLineEnd (s : Bytes) : Prop :=
  s = [] ∨ s.head? = some 0x0A ∨ ∃ u, s = 0x0D :: 0x0A :: u

/-- **Between two statements** no container is open and no value expected, and below a header the next
    token is the first of its line. -/
structure Clean (s : DocState) : Prop where
  flags : Flags s.dec
  containerStack : s.dec.containerStack = []
  expectingValue : s.dec.expectingValue = false
  lineStart : s.doc.inTable = true →
    s.dec.needLineEnd = true ∨ s.dec.atLineStart = true ∨ atLineEnd s.dec.rest

variable {s : DocState}

theorem Clean.needSeparator (h : Clean s) : s.dec.needSeparator = false := by
  cases hs : s.dec.needSeparator with
  | false => rfl
  | true => exact absurd h.containerStack (h.flags.separator hs)

theorem Clean.valueNoNewline (h : Clean s) : s.dec.valueNoNewline = false := by
  cases hv : s.dec.valueNoNewline with
  | false => rfl
  | true =>
    have := (h.flags.noNewline hv).1
    rw [h.expectingValue] at this; cases this

variable {d : Decoder} {tok : RawToken}

/-- Where no comma can come, the token that is returned stands right behind the blanks. -/
theorem readToken_first {d' : Decoder} (hf : Flags d) (hsep : d.needSeparator = false)
    (h : d.readToken = (.ok tok, d')) : TokenStep d.skipSpaces tok d' := by
  have hspec := readTokenIter_spec d
  rcases readToken_ok_turn h with hdone | ⟨d₁, hagain, hread⟩
  · rw [hdone] at hspec; exact hspec
  exfalso
  rw [hagain] at hspec
  rcases hspec with hc | hl
  · have hs := hc.needSeparator
    obtain ⟨l, c, he⟩ := skipSpaces_eq d
    rw [he] at hs
    rw [hsep] at hs; cases hs
  · -- a line end that is not taken is never taken
    have hfix := (hl.stuck hf).fixed hf
    rw [hl.eq] at hread
    obtain ⟨he, -⟩ := readToken_ok hread
    rw [Decoder.readToken, he, Loop.loop_stuck hfix (Nat.lt_irrefl _)] at hread
    cases hread

theorem skipSpaces_expectingValue (d : Decoder) : d.skipSpaces.expectingValue = d.expectingValue := by
  obtain ⟨l, c, he⟩ := skipSpaces_eq d
  rw [he]

/-- A stray bracket is read as a stray token. -/
theorem strayBracket_token (h : Clean s) (hstray : strayBracket s.dec = true)
    (hr : s.dec.readToken = (.ok tok, d)) : startsStatement tok.kind = false := by
  have hstep := readToken_first h.flags h.needSeparator hr
  have hguard := hstep.guard
  unfold strayBracket at hstray
  cases hh : s.dec.skipSpaces.rest.head? with
  | none => rw [hh] at hstray; cases hstray
  | some c =>
    rw [hh] at hstray
    simp only [Bool.or_eq_true, beq_iff_eq] at hstray
    cases hk : tok.kind with
    | comment =>
      rw [hk] at hguard
      have hc : s.dec.skipSpaces.rest.head? = some 0x23 := hguard
      rw [hh] at hc; cases hc; simp at hstray
    | tableHeader | arrayTableHeader =>
      rw [hk] at hguard
      have hc := hguard.2.2.2
      rw [hh] at hc; cases hc; simp at hstray
    | key =>
      rw [hk] at hguard
      obtain ⟨-, hb, hc, hd, -⟩ := hguard.2.2.2 c hh
      rcases hstray with (rfl | rfl) | rfl
      · exact absurd rfl hc
      · exact absurd rfl hd
      · exact absurd rfl hb
    | _ => rfl

/-- Below a header every line begins at the start of a line. -/
theorem Clean.atLineStart (h : Clean s) (ht : s.doc.inTable = true) (hn : s.dec.skipSpaces.needLineEnd = false)
    (hr : s.dec.skipSpaces.rest ≠ []) : s.dec.skipSpaces.atLineStart = true := by
  have hv := h.valueNoNewline
  obtain ⟨l, c, he⟩ := skipSpaces_eq s.dec
  rw [hv] at he
  have hrest := skipSpaces_rest s.dec
  rw [hv] at hrest
  rw [he] at hn ⊢
  rcases h.lineStart ht with hl | hl | hl | hl | ⟨u, hl⟩
  · simp only [hl, Bool.true_and, Bool.not_eq_false'] at hn
    show (s.dec.atLineStart || passesLine (!false) s.dec.rest) = true
    rw [hn, Bool.or_true]
  · simp [hl]
  · exfalso
    apply hr
    rw [hrest, hl, List.drop_nil]
  · obtain ⟨t, ht'⟩ : ∃ t, s.dec.rest = 0x0A :: t := by
      cases hs : s.dec.rest with
      | nil => rw [hs] at hl; cases hl
      | cons b t => rw [hs] at hl; cases hl; exact ⟨t, rfl⟩
    simp [ht', passesLine_lf]
  · simp [hl, passesLine_crlf]

/-- **Every stray token between two statements is one of the three brackets.** -/
theorem Clean.starts (h : Clean s) (ht : s.doc.inTable = true) (hstray : strayBracket s.dec = false)
    (hr : s.dec.readToken = (.ok tok, d)) : startsStatement tok.kind = true := by
  have hstep := readToken_first h.flags h.needSeparator hr
  have hguard := hstep.guard
  have hexp := (skipSpaces_expectingValue s.dec).trans h.expectingValue
  have hbracket : ∀ c, s.dec.skipSpaces.rest.head? = some c → c ≠ 0x5D ∧ c ≠ 0x7D ∧ c ≠ 0x7B := by
    intro c hc
    unfold strayBracket at hstray
    rw [hc] at hstray
    simp only [Bool.or_eq_false_iff, beq_eq_false_iff_ne] at hstray
    exact ⟨hstray.1.1, hstray.1.2, hstray.2⟩
  cases hk : tok.kind with
  | comment | tableHeader | arrayTableHeader | key => rfl
  | invalid => rw [hk] at hguard; exact hguard.elim
  | arrayStart =>
    rw [hk] at hguard
    obtain ⟨hn, hh, hline, -⟩ := hguard
    have hstart := h.atLineStart ht hn (ne_nil_of_head? hh)
    rw [hstart, hexp] at hline; cases hline
  | inlineTableStart => rw [hk] at hguard; exact absurd rfl (hbracket _ hguard.2.1).2.2
  | arrayEnd => rw [hk] at hguard; exact absurd rfl (hbracket _ hguard.2).1
  | inlineTableEnd => rw [hk] at hguard; exact absurd rfl (hbracket _ hguard.2).2.1
  | valueString | valueInteger | valueFloat | valueBool | valueDatetime =>
    rw [hk] at hguard
    have := hguard.2.1
    rw [hexp] at this; cases this

/-! ## Runs without stray tokens -/

variable {s' : DocState} {toks : List RawToken}

/-- **A step lemma**: a statement leads from between two statements to between two statements. -/
theorem Clean.turns {stmt : Stmt} (h : Clean s) (ht : Turns s stmt toks s') (hstray : ∀ k, stmt ≠ .stray k) :
    Clean s' ∧ Statement (kinds toks) := by
  have hf' := ht.reads.flags h.flags
  cases ht with
  | stray => exact absurd rfl (hstray _)
  | @comment tok d hr hk =>
    obtain ⟨e, he, hc⟩ := readToken_control hr
    have hstep := readToken_first h.flags h.needSeparator hr
    have hcontrol := hstep.control
    rw [hk] at hc hcontrol
    obtain ⟨-, hend⟩ := comment_line_end hr hk
    refine ⟨⟨hf', (hc.containerStack.trans he).trans h.containerStack, ?_, fun _ => .inr (.inr hend)⟩, ?_⟩
    · exact (hcontrol.expectingValue.trans (skipSpaces_expectingValue s.dec)).trans h.expectingValue
    · rw [kinds_cons, hk]; exact .comment
  | @table tok d path doc hr hk _ _ =>
    obtain ⟨e, he, hc⟩ := readToken_control hr
    rw [hk] at hc
    refine ⟨⟨hf', (hc.containerStack.trans he).trans h.containerStack, hc.expectingValue,
      fun _ => .inl hc.needLineEnd⟩, ?_⟩
    rw [kinds_cons, hk]; exact .table
  | @arrayTable tok d path doc hr hk _ _ =>
    obtain ⟨e, he, hc⟩ := readToken_control hr
    rw [hk] at hc
    refine ⟨⟨hf', (hc.containerStack.trans he).trans h.containerStack, hc.expectingValue,
      fun _ => .inl hc.needLineEnd⟩, ?_⟩
    rw [kinds_cons, hk]; exact .arrayTable
  | @keyValue tok d d' toks key value doc hr hk _ _ hreads hforms _ =>
    obtain ⟨e, he, hc⟩ := readToken_control hr
    rw [hk] at hc
    have hstack := (hc.containerStack.trans he).trans h.containerStack
    have hset := hreads.settled hforms rfl hstack
    refine ⟨⟨hf', hset.containerStack, hset.expectingValue, fun _ => .inl hset.needLineEnd⟩, ?_⟩
    rw [kinds_cons, hk]; exact .keyValue hforms

/-- The states of the statement loop. -/
def Visited (s₀ s : DocState) : Prop := ∃ stmts toks, Run s₀ stmts toks s

theorem Visited.of_turns {s₁ : DocState} {stmt : Stmt} (ht : Turns s stmt toks s₁) (h : Visited s₁ s') :
    Visited s s' := by
  obtain ⟨stmts, more, hrun⟩ := h
  exact ⟨_, _, .cons ht hrun⟩

/-- A turn of a clean state without a stray bracket is no stray token. -/
theorem Clean.not_stray {stmt : Stmt} (h : Clean s) (hb : strayBracket s.dec = false)
    (ht : Turns s stmt toks s') : ∀ k, stmt ≠ .stray k := by
  rintro k rfl
  cases ht with
  | stray hr hk htable =>
    have := h.starts htable hb hr
    rw [hk] at this; cases this

/-- **A run lemma**: without stray brackets, the tokens of a run are statements. -/
theorem Run.statements {stmts : List Stmt} (hrun : Run s stmts toks s') (h : Clean s)
    (hb : ∀ s', Visited s s' → strayBracket s'.dec = false) : Statements (kinds toks) := by
  induction hrun with
  | nil => exact .nil
  | cons ht _ ih =>
    have hns := h.not_stray (hb _ ⟨[], [], .nil _⟩) ht
    obtain ⟨hclean, hst⟩ := h.turns ht hns
    rw [kinds_append]
    exact .cons hst (ih hclean fun s'' hv => hb s'' (.of_turns ht hv))

/-- A run whose tokens, with some more behind them, are statements meets no stray bracket before its
    end. -/
theorem Run.not_strayBracket {stmts : List Stmt} (hrun : Run s stmts toks s') (h : Clean s)
    {more : List TokenKind} (hr : s'.dec.readToken = (.ok tok, d))
    (hst : Statements (kinds toks ++ tok.kind :: more)) : strayBracket s'.dec = false := by
  induction hrun with
  | nil s =>
    cases hb : strayBracket s.dec with
    | false => rfl
    | true =>
      have := strayBracket_token h hb hr
      rw [Statements.head hst] at this; cases this
  | @cons s s₁ s' stmt stmts toks rest ht _ ih =>
    rw [kinds_append, List.append_assoc] at hst
    have hns : ∀ k, stmt ≠ .stray k := by
      rintro k rfl
      cases ht with
      | stray hr' hk =>
        have := Statements.head hst
        rw [hk] at this; cases this
    obtain ⟨hclean, hone⟩ := h.turns ht hns
    refine ih hclean hr ?_
    have hsingle : Statements (kinds toks) := by
      have := Statements.cons hone .nil
      rwa [List.append_nil] at this
    exact hsingle.cancel hst

theorem startState_clean (data : Bytes) (opts : List DecoderOption) : Clean (startState data opts) := by
  obtain ⟨l, t, e, n, line, col, a, h, -⟩ :=
    newDecoderBytes_eq data (decoderOptionsWithoutTokenPositions opts)
  have hd : (startState data opts).dec = _ := h
  refine ⟨startState_flags data opts, ?_, ?_, fun ht => (by cases ht)⟩
  all_goals (rw [hd]; rfl)

/-! ## Accepted documents -/

/-- Two runs of calls from one state, the second to a call that fails: the first is a part of it. -/
theorem Reads.compare {d₁ d₂ d₃ : Decoder} {xs ys : List RawToken} {e : Err} (h₁ : Reads d xs d₁)
    (h₂ : Reads d ys d₂) (hend : d₂.readToken = (.error e, d₃)) :
    (∃ tok d' more, d₁.readToken = (.ok tok, d') ∧ ys = xs ++ tok :: more) ∨ d₁ = d₂ := by
  induction h₁ generalizing ys with
  | nil =>
    cases h₂ with
    | nil => exact .inr rfl
    | cons hr _ => exact .inl ⟨_, _, _, hr, rfl⟩
  | cons hr _ ih =>
    cases h₂ with
    | nil => rw [hr] at hend; cases hend
    | cons hr' h' =>
      rw [hr] at hr'
      cases hr'
      rcases ih h' with ⟨tok, d', more, hread, rfl⟩ | heq
      · exact .inl ⟨tok, d', more, hread, rfl⟩
      · exact .inr heq

/-- In front of a bracket the text is not at its end. -/
theorem strayBracket_not_eof {d' : Decoder} (he : d.err ≠ some .eof) (h : strayBracket d = true) :
    d.readToken ≠ (.error .eof, d') := by
  intro hr
  cases hrest : d.skipSpaces.rest with
  | nil => rw [strayBracket, hrest] at h; cases h
  | cons c t =>
    rw [strayBracket, hrest] at h
    simp only [List.head?_cons, Bool.or_eq_true, beq_iff_eq] at h
    have hne : d.rest.isEmpty = false := by
      cases hd : d.rest with
      | nil => rw [skipSpaces_nil hd, hd] at hrest; cases hrest
      | cons _ _ => rfl
    -- the turn returns the bracket's token or a syntax error
    have hturn : ∃ r, d.readTokenIter = .done r ∧ r.1 ≠ .error .eof := by
      unfold readTokenIter
      simp only [hne, hrest, Bool.false_eq_true, if_false]
      split
      · rcases h with (rfl | rfl) | rfl
        all_goals exact ⟨_, rfl, by simp [syntaxError, recordErr]⟩
      rcases h with (rfl | rfl) | rfl
      · exact ⟨d.skipSpaces.scanArrayEnd, if_neg (by simp), by simp [scanArrayEnd]⟩
      · exact ⟨d.skipSpaces.scanInlineTableEnd, if_neg (by simp), by simp [scanInlineTableEnd]⟩
      rw [if_neg (by simp)]
      by_cases hc : (d.skipSpaces.innermostIsArray && !d.skipSpaces.expectingValue) = true
      · exact ⟨d.skipSpaces.syntaxError "expected comma" d.skipSpaces.off, if_pos hc,
          by simp [syntaxError, recordErr]⟩
      · exact ⟨d.skipSpaces.scanInlineTableStart, if_neg hc, by simp [scanInlineTableStart]⟩
    obtain ⟨r, hdone, hr1⟩ := hturn
    cases herr : d.err with
    | some e =>
      rw [Decoder.readToken, herr] at hr
      injection hr with h1 _
      injection h1 with h1
      rw [herr, h1] at he
      exact he rfl
    | none =>
      rw [readToken_of_loop herr (Loop.loop_done hdone)] at hr
      rw [hr] at hr1; exact hr1 rfl

/-- The end of the text is never a recorded error. -/
theorem Reads.err_ne_eof {d' : Decoder} (h : Reads d toks d') (he : d.err ≠ some .eof) :
    d'.err ≠ some .eof := by
  induction h with
  | nil => exact he
  | @cons d d₁ d' tok toks hr _ ih =>
    apply ih
    obtain ⟨hnone, e, hb, hs⟩ := readToken_ok hr
    by_cases hfit : tok.kind ≠ .arrayStart ∨ e.arrayFits
    · rw [hs.err.1 hfit, hb.err, hnone]; exact fun h => by cases h
    rw [not_or, not_not] at hfit
    obtain ⟨l, hl⟩ := hs.err.2 hfit.1 hfit.2
    rw [hl]; exact fun h => by cases h

theorem startState_err (data : Bytes) (opts : List DecoderOption) :
    (startState data opts).dec.err ≠ some .eof := by
  obtain ⟨l, t, h⟩ := foldl_applyOption (decoderOptionsWithoutTokenPositions opts) (start data)
  show (newDecoderBytes data _).err ≠ _
  unfold newDecoderBytes
  rw [h]
  dsimp only
  split
  · exact fun h => by cases h
  split
  · exact fun h => by cases h
  unfold skipBOM
  split
  all_goals exact fun h => by cases h

/-- The tokens of an accepted document, up to the end of the text, are a sequence of statements. -/
def ReadsStatements (d : Decoder) : Prop :=
  ∃ toks d₁ d₂, Reads d toks d₁ ∧ d₁.readToken = (.error .eof, d₂) ∧ Statements (kinds toks)

/-- A document of statements leads the statement loop in front of no stray bracket. -/
theorem ReadsStatements.not_strayBracket {data : Bytes} {opts : List DecoderOption}
    (h : ReadsStatements (startState data opts).dec) (hv : Visited (startState data opts) s) :
    strayBracket s.dec = false := by
  obtain ⟨toks, d₁, d₂, hreads, heof, hst⟩ := h
  obtain ⟨stmts, seen, hrun⟩ := hv
  rcases hrun.reads.compare hreads heof with ⟨tok, d', more, hr, rfl⟩ | heq
  · rw [kinds_append, kinds_cons] at hst
    exact hrun.not_strayBracket (startState_clean data opts) hr hst
  cases hb : strayBracket s.dec with
  | false => rfl
  | true =>
    exfalso
    rw [← heq] at heof
    exact strayBracket_not_eof (hrun.reads.err_ne_eof (startState_err data opts)) hb heof

/-- **An accepted document is a sequence of statements if and only if the statement loop never stands
    in front of a stray `]`, `}` or `{`.** -/
theorem parseDocument_statements_iff (lower : Bytes → Bytes) (data : Bytes)
    (opts : List DecoderOption) (root : Table) (h : parseDocument lower data opts .all = .ok root) :
    ReadsStatements (startState data opts).dec ↔
      ∀ s, Visited (startState data opts) s → strayBracket s.dec = false := by
  constructor
  · intro hst s hv
    exact hst.not_strayBracket hv
  intro hb
  obtain ⟨stmts, toks, s, d, hrun, heof, -⟩ := parseDocument_ok h
  exact ⟨toks, s.dec, d, hrun.reads, heof, hrun.statements (startState_clean data opts) hb⟩

/-- A document of two statements, accepted, and no stray bracket on the way. -/
theorem parseDocument_statements_iff_example :
    parseDocument id (ascii "a = 1\n[t]\n") [] .all = .ok [(ascii "a", .int 1), (ascii "t", .tbl [])] ∧
      ReadsStatements (startState (ascii "a = 1\n[t]\n") []).dec ∧
      ∀ s, Visited (startState (ascii "a = 1\n[t]\n") []) s → strayBracket s.dec = false := by
  have hreads : Reads (startState (ascii "a = 1\n[t]\n") []).dec
      [⟨.key, ascii "a", 0⟩, ⟨.valueInteger, ascii "1", 4⟩, ⟨.tableHeader, ascii "[t]", 6⟩] _ :=
    .cons (Prod.ext (by decide +kernel) rfl) (.cons (Prod.ext (by decide +kernel) rfl)
      (.cons (Prod.ext (by decide +kernel) rfl) (.nil _)))
  have hstmts : ReadsStatements (startState (ascii "a = 1\n[t]\n") []).dec :=
    ⟨_, _, _, hreads, Prod.ext (by decide +kernel) rfl,
      .cons (.keyValue (.scalar rfl)) (.cons .table .nil)⟩
  exact ⟨by decide +kernel, hstmts, (parseDocument_statements_iff id _ _
    [(ascii "a", .int 1), (ascii "t", .tbl [])] (by decide +kernel)).mp hstmts⟩

/-- Below a header a lone `]` is accepted. -/
theorem parseDocument_stray_bracket :
    parseDocument id (ascii "[t]\n]\n") [] .all = .ok [(ascii "t", .tbl [])] ∧
      ¬ ReadsStatements (startState (ascii "[t]\n]\n") []).dec := by
  refine ⟨by decide +kernel, fun hst => ?_⟩
  -- the state behind the header stands in front of the bracket
  have hturn : (match documentTurn id (ascii "[t]\n]\n") .all (startState (ascii "[t]\n]\n") []) with
      | .again s => strayBracket s.dec
      | .done _ => false) = true := by decide +kernel
  split at hturn
  · rename_i s hs
    obtain ⟨stmt, toks, ht⟩ := documentTurn_again (startState_flags _ _) (startState_unfiltered _ _) hs
    have := hst.not_strayBracket ⟨_, _, .cons ht (.nil _)⟩
    rw [hturn] at this; cases this
  · cases hturn

end Pandaemonium.Toml
