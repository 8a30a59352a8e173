import Pandaemonium.Toml.Document
import Pandaemonium.Toml.Tokens

/-!
# `Toml.Statements` — the statement loop as a labelled transition system

With the nil filter nothing is skipped: every turn of the statement loop reads the tokens of one
statement and applies it to the document. `Turns` is that step, with the statement as its label;
`Run` is a sequence of steps. `parseDocument_ok` says that an accepted document is a run that ends at
the end of the text. Properties of `parseDocument` are proved along `Run`, those of the bookkeeping alone
along `Doc.step`.
-/

namespace Pandaemonium.Toml

open Decoder

/-- A statement, decoded. A stray token is one the loop passes over below a header. -/
inductive Stmt where
  | comment
  | table (path : List Bytes)
  | arrayTable (path : List Bytes)
  | keyValue (key : List Bytes) (value : Val)
  | stray (kind : TokenKind)
  deriving DecidableEq

/-- The key token of an assignment: its checks, then the write into `current`. -/
def Doc.keyValue (doc : Doc) (key : List Bytes) (value : Val) : Except String Doc :=
  match doc.dottedKeyConflict key, doc.current with
  | some msg, _ => .error msg
  | none, some loc => doc.assign loc key value
  | none, none => .ok doc

/-- **What a statement does to the document.** -/
def Doc.step (doc : Doc) : Stmt → Except String Doc
  | .comment => .ok doc
  | .table path => doc.tableHeader id .all path
  | .arrayTable path => doc.arrayTableHeader id .all path
  | .keyValue key value => doc.keyValue key value
  | .stray _ => .ok doc

/-- Nothing is filtered out. -/
structure Doc.Unfiltered (doc : Doc) : Prop where
  current : ∃ loc, doc.current = some loc
  filter : doc.currentFilter = .all

theorem lookupPath_all (lower : Bytes → Bytes) (path : List Bytes) :
    DecodeFilter.all.lookupPath lower path = some .all := by
  cases path <;> rfl

theorem tableHeader_all (lower : Bytes → Bytes) (doc : Doc) (path : List Bytes) :
    doc.tableHeader lower .all path = doc.tableHeader id .all path := by
  simp only [Doc.tableHeader, lookupPath_all]

theorem arrayTableHeader_all (lower : Bytes → Bytes) (doc : Doc) (path : List Bytes) :
    doc.arrayTableHeader lower .all path = doc.arrayTableHeader id .all path := by
  simp only [Doc.arrayTableHeader, lookupPath_all]

/-- The four token kinds a statement can begin with. -/
def startsStatement : TokenKind → Bool
  | .comment | .tableHeader | .arrayTableHeader | .key => true
  | _ => false

/-- **One turn of the statement loop**: the statement, its tokens and the state after it. -/
inductive Turns (s : DocState) : Stmt → List RawToken → DocState → Prop
  | comment {tok : RawToken} {d : Decoder} :
      s.dec.readToken = (.ok tok, d) → tok.kind = .comment → Turns s .comment [tok] ⟨d, s.doc⟩
  | table {tok : RawToken} {d : Decoder} {path : List Bytes} {doc : Doc} :
      s.dec.readToken = (.ok tok, d) → tok.kind = .tableHeader →
      keyPath (trimHeaderKey tok.bytes false) = .ok path → s.doc.step (.table path) = .ok doc →
      Turns s (.table path) [tok] ⟨d, doc⟩
  | arrayTable {tok : RawToken} {d : Decoder} {path : List Bytes} {doc : Doc} :
      s.dec.readToken = (.ok tok, d) → tok.kind = .arrayTableHeader →
      keyPath (trimHeaderKey tok.bytes true) = .ok path → s.doc.step (.arrayTable path) = .ok doc →
      Turns s (.arrayTable path) [tok] ⟨d, doc⟩
  | keyValue {tok : RawToken} {d d' : Decoder} {toks : List RawToken} {key : List Bytes}
      {value : Val} {doc : Doc} :
      s.dec.readToken = (.ok tok, d) → tok.kind = .key → keyPath tok.bytes = .ok key →
      parseNextValue d = (.ok value, d') → Reads d toks d' → Forms .value (kinds toks) →
      s.doc.step (.keyValue key value) = .ok doc →
      Turns s (.keyValue key value) (tok :: toks) ⟨d', doc⟩
  | stray {tok : RawToken} {d : Decoder} :
      s.dec.readToken = (.ok tok, d) → startsStatement tok.kind = false → s.doc.inTable = true →
      Turns s (.stray tok.kind) [tok] ⟨d, s.doc⟩

variable {data : Bytes} {tok : RawToken} {d : Decoder} {s' : DocState}

theorem endStatement_again {r : Except String Doc} (h : endStatement data tok d r = .again s') :
    ∃ doc, r = .ok doc ∧ s' = ⟨d, doc⟩ := by
  cases r with
  | error msg => cases h
  | ok doc => cases h; exact ⟨doc, rfl, rfl⟩

theorem headerStatement_again {array : Bool} {statement : List Bytes → Except String Doc}
    (h : headerStatement data tok d array statement = .again s') :
    ∃ path doc, keyPath (trimHeaderKey tok.bytes array) = .ok path ∧ statement path = .ok doc ∧
      s' = ⟨d, doc⟩ := by
  unfold headerStatement at h
  split at h
  · cases h
  rename_i path hp
  obtain ⟨doc, hdoc, hs⟩ := endStatement_again h
  exact ⟨path, doc, hp, hdoc, hs⟩

theorem assignStatement_again {doc : Doc} {loc : Loc} (h : assignStatement data tok doc d loc = .again s') :
    ∃ key value d' doc', keyPath tok.bytes = .ok key ∧ doc.dottedKeyConflict key = none ∧
      parseNextValue d = (.ok value, d') ∧ doc.assign loc key value = .ok doc' ∧ s' = ⟨d', doc'⟩ := by
  unfold assignStatement at h
  split at h
  · cases h
  rename_i key hkey
  split at h
  · cases h
  rename_i hconf
  split at h
  · cases h
  · cases h
  rename_i value d' hval
  obtain ⟨doc', hdoc, hs⟩ := endStatement_again h
  exact ⟨key, value, d', doc', hkey, hconf, hval, hdoc, hs⟩

variable {lower : Bytes → Bytes}

theorem keyStatement_again {doc : Doc} (hopen : doc.Unfiltered)
    (h : keyStatement lower data tok doc d = .again s') :
    ∃ key value d' doc', keyPath tok.bytes = .ok key ∧ parseNextValue d = (.ok value, d') ∧
      doc.step (.keyValue key value) = .ok doc' ∧ s' = ⟨d', doc'⟩ := by
  obtain ⟨⟨loc, hloc⟩, hfilter⟩ := hopen
  unfold keyStatement at h
  rw [hloc, hfilter] at h
  obtain ⟨key, value, d', doc', hkey, hconf, hval, hdoc, hs⟩ := assignStatement_again h
  refine ⟨key, value, d', doc', hkey, hval, ?_, hs⟩
  show doc.keyValue key value = .ok doc'
  unfold Doc.keyValue
  rw [hconf, hloc]
  exact hdoc

variable {s : DocState}

/-- A key statement is a step, whichever tokens its value takes. -/
theorem turns_keyValue (hf : Flags s.dec) {d' : Decoder} {key : List Bytes} {value : Val} {doc : Doc}
    (hread : s.dec.readToken = (.ok tok, d)) (hk : tok.kind = .key) (hkey : keyPath tok.bytes = .ok key)
    (hval : parseNextValue d = (.ok value, d')) (hdoc : s.doc.step (.keyValue key value) = .ok doc) :
    ∃ toks, Turns s (.keyValue key value) toks ⟨d', doc⟩ := by
  have hfd : Flags d := by have := readToken_flags hf; rwa [hread] at this
  obtain ⟨toks, hreads, hforms⟩ := parseNextValue_reads hfd (readToken_key hread hk) hval
  exact ⟨_, .keyValue hread hk hkey hval hreads hforms hdoc⟩

/-- **Every turn that goes round is a statement step.** -/
theorem documentTurn_again (hf : Flags s.dec) (hopen : s.doc.Unfiltered)
    (h : documentTurn lower data .all s = .again s') : ∃ stmt toks, Turns s stmt toks s' := by
  unfold documentTurn at h
  split at h
  · cases h
  · cases h
  · cases h
  rename_i tok d hread
  split at h
  · rename_i hk
    cases h; exact ⟨_, _, .comment hread hk⟩
  · rename_i hk
    obtain ⟨path, doc, hp, hdoc, rfl⟩ := headerStatement_again h
    rw [tableHeader_all] at hdoc
    exact ⟨_, _, .table hread hk hp hdoc⟩
  · rename_i hk
    obtain ⟨path, doc, hp, hdoc, rfl⟩ := headerStatement_again h
    rw [arrayTableHeader_all] at hdoc
    exact ⟨_, _, .arrayTable hread hk hp hdoc⟩
  · rename_i hk
    obtain ⟨key, value, d', doc, hkey, hval, hdoc, rfl⟩ := keyStatement_again hopen h
    obtain ⟨toks, ht⟩ := turns_keyValue hf hread hk hkey hval hdoc
    exact ⟨_, toks, ht⟩
  · rename_i h1 h2 h3 h4
    split at h
    · rename_i htable
      cases h
      refine ⟨_, _, .stray hread ?_ htable⟩
      cases hk : tok.kind with
      | comment => exact absurd hk h1
      | tableHeader => exact absurd hk h2
      | arrayTableHeader => exact absurd hk h3
      | key => exact absurd hk h4
      | _ => rfl
    · cases h

/-! ## Steps keep the document unfiltered -/

theorem tableHeader_ok {doc doc' : Doc} {path : List Bytes} (h : doc.tableHeader id .all path = .ok doc') :
    doc.tableHeaderConflict path = none ∧ ∃ root loc, ensureTableRaw doc.root path = .ok (root, loc) ∧
      doc' =
        { doc.enter root loc path .all with
          declaredTables :=
            (encodedKeyPath path, declarationContext path doc.arrayTableEpochs) ::
              doc.declaredTables } := by
  unfold Doc.tableHeader at h
  split at h
  · cases h
  rename_i hconf
  refine ⟨hconf, ?_⟩
  rw [lookupPath_all] at h
  dsimp only at h
  split at h
  · cases h
  rename_i root loc hens
  cases h
  exact ⟨root, loc, hens, rfl⟩

/-- The writer for a path of one segment does what the general one does. -/
theorem appendArrayTable_eq (root : Table) (path : List Bytes) :
    Doc.appendArrayTable root path = appendArrayTableRaw root path := by
  unfold Doc.appendArrayTable
  split
  · rename_i name
    unfold appendArrayTableRaw
    simp only [List.getLast?_singleton, List.dropLast_singleton, ensureTableRaw, Val.tableAt, Val.at?]
    cases h : appendArrayTableKeyRaw root name with
    | error msg => rfl
    | ok r => obtain ⟨parent, last⟩ := r; rfl
  · rfl

theorem arrayTableHeader_ok {doc doc' : Doc} {path : List Bytes}
    (h : doc.arrayTableHeader id .all path = .ok doc') :
    doc.arrayTableHeaderConflict path = none ∧
      ∃ root loc, appendArrayTableRaw doc.root path = .ok (root, loc) ∧
        doc' = (doc.bumpEpoch path).enter root loc path .all := by
  unfold Doc.arrayTableHeader at h
  split at h
  · cases h
  rename_i hconf
  refine ⟨hconf, ?_⟩
  rw [lookupPath_all] at h
  dsimp only at h
  rw [appendArrayTable_eq] at h
  split at h
  · cases h
  rename_i root loc hens
  cases h
  exact ⟨root, loc, hens, rfl⟩

theorem keyValue_ok {doc doc' : Doc} {key : List Bytes} {value : Val} {loc : Loc}
    (hloc : doc.current = some loc) (h : doc.keyValue key value = .ok doc') :
    doc.dottedKeyConflict key = none ∧
      ∃ t, assignUniqueRaw ((Val.tbl doc.root).tableAt loc) key value = .ok t ∧
        doc' =
          { doc with
            root := ((Val.tbl doc.root).setAt loc (.tbl t)).tableAt []
            dottedKeyTables :=
              markDottedKeyTables doc.dottedKeyTables (doc.currentPath ++ key)
                doc.currentPath.length doc.arrayTableEpochs
            closedInlineTables :=
              markClosedValuePaths doc.arrayTableEpochs doc.closedInlineTables
                (doc.currentPath ++ key) value } := by
  unfold Doc.keyValue at h
  rw [hloc] at h
  cases hconf : doc.dottedKeyConflict key with
  | some msg => rw [hconf] at h; cases h
  | none =>
    rw [hconf] at h
    refine ⟨rfl, ?_⟩
    change doc.assign loc key value = .ok doc' at h
    unfold Doc.assign at h
    split at h
    · cases h
    rename_i t ht
    cases h
    exact ⟨t, ht, rfl⟩

variable {stmt : Stmt}

theorem Doc.step_unfiltered {doc doc' : Doc} (hopen : doc.Unfiltered) (h : doc.step stmt = .ok doc') :
    doc'.Unfiltered := by
  cases stmt with
  | comment | stray k => cases h; exact hopen
  | table path =>
    obtain ⟨-, root, loc, -, rfl⟩ := tableHeader_ok h
    exact ⟨⟨loc, rfl⟩, rfl⟩
  | arrayTable path =>
    obtain ⟨-, root, loc, -, rfl⟩ := arrayTableHeader_ok h
    exact ⟨⟨loc, rfl⟩, rfl⟩
  | keyValue key value =>
    obtain ⟨⟨loc, hloc⟩, hfilter⟩ := hopen
    obtain ⟨-, t, -, rfl⟩ := keyValue_ok hloc h
    exact ⟨⟨loc, hloc⟩, hfilter⟩

variable {toks : List RawToken}

theorem Turns.doc (h : Turns s stmt toks s') : s.doc.step stmt = .ok s'.doc := by
  cases h with
  | comment | stray => rfl
  | table _ _ _ hdoc | arrayTable _ _ _ hdoc | keyValue _ _ _ _ _ _ hdoc => exact hdoc

theorem Turns.reads (h : Turns s stmt toks s') : Reads s.dec toks s'.dec := by
  cases h with
  | comment hr | table hr | arrayTable hr | stray hr => exact .single hr
  | keyValue hr _ _ _ hreads => exact .cons hr hreads

/-! ## Runs -/

/-- A sequence of statement steps. -/
inductive Run : DocState → List Stmt → List RawToken → DocState → Prop
  | nil (s : DocState) : Run s [] [] s
  | cons {s s₁ s' : DocState} {stmt : Stmt} {stmts : List Stmt} {toks more : List RawToken} :
      Turns s stmt toks s₁ → Run s₁ stmts more s' → Run s (stmt :: stmts) (toks ++ more) s'

theorem Run.reads {stmts : List Stmt} (h : Run s stmts toks s') : Reads s.dec toks s'.dec := by
  induction h with
  | nil => exact .nil _
  | cons ht _ ih => exact ht.reads.append ih

/-- One more statement at the end. -/
theorem Run.snoc {s₀ : DocState} {stmts : List Stmt} {more : List RawToken} (h : Run s₀ stmts toks s)
    (ht : Turns s stmt more s') : Run s₀ (stmts ++ [stmt]) (toks ++ more) s' := by
  induction h with
  | nil s =>
    have hone := Run.cons ht (.nil s')
    rwa [List.append_nil] at hone
  | cons ht₀ _ ih =>
    rw [List.append_assoc]
    exact .cons ht₀ (ih ht)

/-- The state `parseDocument` starts in. -/
def startState (data : Bytes) (opts : List DecoderOption) : DocState :=
  ⟨newDecoderBytes data (decoderOptionsWithoutTokenPositions opts), Doc.empty .all⟩

theorem startState_flags (data : Bytes) (opts : List DecoderOption) :
    Flags (startState data opts).dec := newDecoderBytes_flags _ _

theorem startState_unfiltered (data : Bytes) (opts : List DecoderOption) :
    (startState data opts).doc.Unfiltered := ⟨⟨[], rfl⟩, rfl⟩

/-- **An accepted document is a run to the end of the text.** -/
theorem parseDocument_ok {opts : List DecoderOption} {root : Table}
    (h : parseDocument lower data opts .all = .ok root) :
    ∃ stmts toks s d, Run (startState data opts) stmts toks s ∧
      s.dec.readToken = (.error .eof, d) ∧ s.doc.root = root := by
  unfold parseDocument at h
  dsimp only at h
  split at h
  · rename_i r hl
    refine Loop.loop_induction
      (motive := fun s r => Flags s.dec → s.doc.Unfiltered → r = .ok root →
        ∃ stmts toks s' d, Run s stmts toks s' ∧ s'.dec.readToken = (.error .eof, d) ∧
          s'.doc.root = root)
      ?_ ?_ hl (startState_flags data opts) (startState_unfiltered data opts) h
    · rintro s r hb hf hopen rfl
      -- the last turn: only the end of the text ends the loop with a document
      have hend : ∃ d, s.dec.readToken = (.error .eof, d) ∧ s.doc.root = root := by
        unfold documentTurn at hb
        split at hb
        · rename_i d hr; cases hb; exact ⟨d, hr, rfl⟩
        · cases hb
        · cases hb
        split at hb
        · cases hb
        · unfold headerStatement at hb
          split at hb
          · cases hb
          · unfold endStatement at hb; split at hb <;> cases hb
        · unfold headerStatement at hb
          split at hb
          · cases hb
          · unfold endStatement at hb; split at hb <;> cases hb
        · unfold keyStatement at hb
          obtain ⟨⟨loc, hloc⟩, hfilter⟩ := hopen
          rw [hloc, hfilter] at hb
          simp only [DecodeFilter.lookup] at hb
          unfold assignStatement at hb
          split at hb
          · cases hb
          split at hb
          · cases hb
          split at hb
          · cases hb
          · cases hb
          · unfold endStatement at hb; split at hb <;> cases hb
        · split at hb <;> cases hb
      obtain ⟨d, hr, hroot⟩ := hend
      exact ⟨[], [], s, d, .nil s, hr, hroot⟩
    · intro s s₁ r hb _ _ ih hf hopen hr
      obtain ⟨stmt, toks, ht⟩ := documentTurn_again hf hopen hb
      obtain ⟨stmts, more, s', d, hrun, heof, hroot⟩ :=
        ih (ht.reads.flags hf) (Doc.step_unfiltered hopen ht.doc) hr
      exact ⟨stmt :: stmts, toks ++ more, s', d, .cons ht hrun, heof, hroot⟩
  · cases h

end Pandaemonium.Toml
