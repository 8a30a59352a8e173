import Pandaemonium.Toml.Ledger
import Pandaemonium.Toml.Tree

/-!
# `Toml.Placement` — a value stays where its statement put it

`placements` says where the values of a list of statements belong: at the place that the header path and
the dotted key denote when the statement is read. `KeepsStatements` asks that the tree holds just these
values, each at its place and none inside another. Every statement has one `Effect` on the tree; that no
effect reaches into a value that is already there is due to the ledger (`Holds.closed`), and so holds as
long as the maps of the document keep the ledger: in every run whose paths are told apart by their strings
(`statementsKept`). A NUL in a key can hide a closed value from the checks.
-/

namespace Pandaemonium.Toml

open List
open SortedMap (get?)

/-! ## What is asked of the tree -/

/-- The place and the value of a statement: what its key denotes below what its header denotes. -/
def Stmt.place? (doc : Doc) : Stmt → Option (List (Loc × Val))
  | .keyValue key value =>
    (locate doc.root doc.currentPath).map fun c => [(c ++ key.map .key, value)]
  | _ => some []

/-- The places and values of a list of statements; `none` if a header leads nowhere. -/
def placements (doc : Doc) : List Stmt → Option (List (Loc × Val))
  | [] => some []
  | stmt :: stmts =>
    match doc.step stmt, stmt.place? doc with
    | .ok doc', some now => (placements doc' stmts).map (now ++ ·)
    | _, _ => none

theorem placements_cons {doc doc' : Doc} {stmt : Stmt} {stmts : List Stmt}
    {now placed : List (Loc × Val)} (hstep : doc.step stmt = .ok doc')
    (hnow : stmt.place? doc = some now) (hplaced : placements doc' stmts = some placed) :
    placements doc (stmt :: stmts) = some (now ++ placed) := by
  rw [placements, hstep, hnow]
  dsimp only
  rw [hplaced]
  rfl

/-- **The tree holds the values of the statements and no others.** -/
structure KeepsStatements (root : Table) (placed : List (Loc × Val)) : Prop where
  /-- each value is where its statement put it, and as it was -/
  found : ∀ e ∈ placed, (Val.tbl root).at? e.1 = some e.2
  /-- no statement has written into the value of another -/
  apart : placed.Pairwise fun e f => ¬ e.1 <+: f.1 ∧ ¬ f.1 <+: e.1
  /-- all else is made of tables and arrays of tables -/
  nothingElse : ∀ l x, (Val.tbl root).at? l = some x →
    (∃ e ∈ placed, e.1 <+: l) ∨ (∃ es, x = .tbl es) ∨
      ∃ xs, x = .arr xs ∧ xs ≠ [] ∧ ∀ y ∈ xs, ∃ es, y = .tbl es

/-! ## The invariant -/

/-- A tree made of tables, arrays of tables and the values `P`; the containers among `P` are closed in
    the ledger under every path that leads to them. -/
structure Holds (P : List (Loc × Val)) (L : Ledger) (root : Table) : Prop where
  values : ∀ e ∈ P, (Val.tbl root).at? e.1 = some e.2
  apart : P.Pairwise fun e f => ¬ e.1 <+: f.1 ∧ ¬ f.1 <+: e.1
  keyed : ∀ e ∈ P, ∃ c k, e.1 = c ++ [.key k]
  made : ∀ l x, (Val.tbl root).at? l = some x →
    (∃ e ∈ P, e.1 <+: l) ∨ (∃ es, x = .tbl es) ∨ ∃ c k xs, l = c ++ [.key k] ∧ x = .arr xs ∧ xs ≠ []
  closed : ∀ e ∈ P, e.2.isContainer = true → ∀ c k path, e.1 = c ++ [.key k] →
    locate root path = some c → L.here L.closed (path ++ [k]) = true

/-- The invariant, with the table that the next key goes to: the one the last header denotes, outside all
    values. -/
structure Doc.Faithful (P : List (Loc × Val)) (L : Ledger) (doc : Doc) : Prop where
  holds : Holds P L doc.root
  current : ∃ c, doc.current = some c ∧ locate doc.root doc.currentPath = some c ∧
    ∀ e ∈ P, ¬ e.1 <+: c

theorem faithful_empty : (Doc.empty .all).Faithful [] Ledger.empty where
  holds :=
    { values := by intro e he; cases he
      apart := .nil
      keyed := by intro e he; cases he
      closed := by intro e he; cases he
      made := by
        intro l x hx
        by_cases hl : l = []
        · subst hl
          cases hx
          exact .inr (.inl ⟨[], rfl⟩)
        · rw [show (Doc.empty .all).root = [] from rfl, Val.at?_empty hl] at hx
          cases hx }
  current := ⟨[], rfl, rfl, by intro e he; cases he⟩

/-- The invariant is what is asked. -/
theorem Holds.keepsStatements {P : List (Loc × Val)} {L : Ledger} {root : Table} (h : Holds P L root) :
    KeepsStatements root P where
  found := h.values
  apart := h.apart
  nothingElse := by
    intro l x hx
    rcases h.made l x hx with hp | htbl | ⟨c, k, xs, hl, rfl, hne⟩
    · exact .inl hp
    · exact .inr (.inl htbl)
    by_cases hin : ∃ e ∈ P, e.1 <+: l
    · exact .inl hin
    refine .inr (.inr ⟨xs, rfl, hne, ?_⟩)
    -- an element is no value of a statement, for it has no key of its own
    intro y hy
    obtain ⟨i, hi, rfl⟩ := getElem_of_mem hy
    have hat : (Val.tbl root).at? (l ++ [.elem i]) = some xs[i] := by
      rw [Val.at?_append, hx]
      show (xs[i]?).bind _ = _
      rw [getElem?_eq_getElem hi]
      rfl
    rcases h.made _ _ hat with ⟨e, he, hpre⟩ | ⟨es, hes⟩ | ⟨c', k', ys, hl', -, -⟩
    · exfalso
      rcases prefix_concat_iff.mp hpre with heq | hpre'
      · obtain ⟨c', k', hk⟩ := h.keyed e he
        rw [hk] at heq
        have hlast := (append_inj' heq rfl).2
        cases hlast
      · exact hin ⟨e, he, hpre'⟩
    · exact ⟨es, hes⟩
    · have hlast := (append_inj' hl' rfl).2
      cases hlast

/-! ## The effect of a statement -/

/-- A statement goes to the table at `path`, whose place is `way`, and puts `w` there or under one of its
    keys, at `loc`. -/
structure Effect (path : Path) (way loc : Loc) (w : Val) (grown : Loc → Prop) (root root' : Table) :
    Prop where
  writes : Writes grown loc w (.tbl root) (.tbl root')
  was : (Val.tbl root).at? loc = none ∨ (Val.tbl root).at? loc = some w
  leads : locate root' path = some way
  ends : ∀ l, l <+: loc → l <+: way ∨ l = loc

section

variable {P : List (Loc × Val)} {L : Ledger} {root root' : Table} {path : Path} {way loc : Loc}
  {w : Val} {grown : Loc → Prop}

/-- What does not lie on the way stays. -/
theorem Effect.unchanged (h : Effect path way loc w grown root root') {l : Loc} {x : Val}
    (hx : (Val.tbl root).at? l = some x) (hl : ¬ l <+: loc) : (Val.tbl root').at? l = some x := by
  by_cases hp : loc <+: l
  · obtain ⟨r, rfl⟩ := hp
    rw [h.writes.put]
    rw [Val.at?_append] at hx
    rcases h.was with hn | hs
    · rw [hn] at hx; cases hx
    · rw [hs] at hx; exact hx
  · rw [h.writes.off l hl hp]
    exact hx

/-- What is there afterwards was there before, lies on the way or is part of what was put. -/
theorem Effect.origin (h : Effect path way loc w grown root root') {l : Loc} {x : Val}
    (hx : (Val.tbl root').at? l = some x) :
    (Val.tbl root).at? l = some x ∨ l <+: way ∨
      ((Val.tbl root).at? loc = none ∧ ∃ r, l = loc ++ r ∧ w.at? r = some x) := by
  by_cases hl : loc <+: l
  · obtain ⟨r, rfl⟩ := hl
    have hput := h.writes.put r
    rw [hx] at hput
    rcases h.was with hn | hs
    · exact .inr (.inr ⟨hn, r, rfl, hput.symm⟩)
    refine .inl ?_
    rw [Val.at?_append, hs]
    exact hput.symm
  · by_cases hp : l <+: loc
    · rcases h.ends l hp with hway | rfl
      · exact .inr (.inl hway)
      · exact absurd (prefix_refl _) hl
    · refine .inl ?_
      rw [← h.writes.off l hp hl]
      exact hx

/-- A path that leads to the table of a value led there before. -/
theorem Holds.locate_effect (h : Holds P L root) (hE : Effect path way loc w grown root root')
    {e : Loc × Val} (he : e ∈ P) {c : Loc} {k : Bytes} (hck : e.1 = c ++ [.key k]) {q : Path}
    (hq : locate root' q = some c) : locate root q = some c := by
  refine hE.writes.keeps.locate_old hq ?_
  have hval := h.values e he
  rw [hck] at hval
  obtain ⟨x, hx, -⟩ := Val.at?_before hval
  rw [hx]
  simp

/-- **A value on the way is closed** under a path that leads to it. -/
theorem Holds.closed_of_onWay (h : Holds P L root) (hE : Effect path way loc w grown root root')
    {e : Loc × Val} (he : e ∈ P) (hway : e.1 <+: way) :
    ∃ c k before, e.1 = c ++ [.key k] ∧ before ++ [k] <+: path ∧ locate root before = some c ∧
      L.here L.closed (before ++ [k]) = true := by
  obtain ⟨c, k, hck⟩ := h.keyed e he
  rw [hck] at hway
  obtain ⟨before, hb, hbefore'⟩ := locate_key hE.leads hway
  have hbefore := h.locate_effect hE he hck hbefore'
  refine ⟨c, k, before, hck, hb, hbefore, h.closed e he ?_ c k before hck hbefore⟩
  -- what lies on the way is a container, and nothing else becomes one
  obtain ⟨x', hx', hgrows⟩ := hE.writes.keeps e.1 e.2 (h.values e he)
  rw [hck] at hx'
  rcases locate_way hE.leads hway with ⟨es, hes⟩ | ⟨_, _, xs, _, hxs, _⟩
  · rw [hes] at hx'
    cases hx'
    obtain ⟨es', hes'⟩ := hgrows.to_tbl
    rw [hes']
    rfl
  · rw [hxs] at hx'
    cases hx'
    obtain ⟨xs', hxs', -⟩ := hgrows.to_arr
    rw [hxs']
    rfl

theorem Holds.values_effect (h : Holds P L root) (hE : Effect path way loc w grown root root')
    (hfree : ∀ e ∈ P, ¬ e.1 <+: loc) : ∀ e ∈ P, (Val.tbl root').at? e.1 = some e.2 :=
  fun e he => hE.unchanged (h.values e he) (hfree e he)

/-- The tree is still made of tables, arrays of tables and values, if what was put is. -/
theorem Holds.made_effect (h : Holds P L root) (hE : Effect path way loc w grown root root')
    {Q : List (Loc × Val)} (hsub : ∀ e ∈ P, e ∈ Q)
    (hnew : (Val.tbl root).at? loc = none → (loc, w) ∈ Q ∨ w = .tbl []) :
    ∀ l x, (Val.tbl root').at? l = some x →
      (∃ e ∈ Q, e.1 <+: l) ∨ (∃ es, x = .tbl es) ∨
        ∃ c k xs, l = c ++ [.key k] ∧ x = .arr xs ∧ xs ≠ [] := by
  intro l x hx
  rcases hE.origin hx with hold | hway | ⟨hnone, r, rfl, hr⟩
  · rcases h.made l x hold with ⟨e, he, hpre⟩ | hrest
    · exact .inl ⟨e, hsub e he, hpre⟩
    · exact .inr hrest
  · rcases locate_way hE.leads hway with ⟨es, hes⟩ | ⟨c, k, xs, hl, hxs, hne⟩
    · rw [hes] at hx
      cases hx
      exact .inr (.inl ⟨es, rfl⟩)
    · rw [hxs] at hx
      cases hx
      exact .inr (.inr ⟨c, k, xs, hl, rfl, hne⟩)
  · rcases hnew hnone with hmem | rfl
    · exact .inl ⟨(loc, w), hmem, prefix_append _ _⟩
    by_cases hr' : r = []
    · subst hr'
      cases hr
      exact .inr (.inl ⟨[], rfl⟩)
    · rw [Val.at?_empty hr'] at hr
      cases hr

end

/-! ## The effects of headers and keys -/

theorem tableHeader_effect {root root' : Table} {path : Path} {loc : Loc}
    (h : ensureTableRaw root path = .ok (root', loc)) :
    ∃ w, Effect path loc loc w (fun _ => False) root root' ∧
      ((Val.tbl root).at? loc = none → w = .tbl []) := by
  obtain ⟨es, hw, hleads, hwas⟩ := ensureTableRaw_writes h
  refine ⟨.tbl es, ⟨hw, ?_, hleads, fun l hl => .inl hl⟩, ?_⟩
  · rcases hwas with hs | ⟨hn, -⟩
    · exact .inr hs
    · exact .inl hn
  · intro hnone
    rcases hwas with hs | ⟨-, hes⟩
    · rw [hnone] at hs; cases hs
    · exact hes

theorem arrayTableHeader_effect {root root' : Table} {path : Path} {loc : Loc} (hne : path ≠ [])
    (h : appendArrayTableRaw root path = .ok (root', loc)) :
    ∃ c name i, path = path.dropLast ++ [name] ∧ loc = c ++ [.key name, .elem i] ∧
      locate root' path.dropLast = some c ∧ (Val.tbl root).at? loc = none ∧
      Effect path loc loc (.tbl []) (· = c ++ [.key name]) root root' := by
  obtain ⟨c, name, i, hpath, hloc, hnone, hw, hleads, hparent⟩ := appendArrayTableRaw_writes hne h
  exact ⟨c, name, i, hpath, hloc, hparent, hnone, hw, .inl hnone, hleads, fun l hl => .inl hl⟩

variable {key : Path} {value : Val}

theorem assign_effect {root t : Table} {base : Path} {c : Loc} (hne : key ≠ [])
    (hbase : locate root base = some c) (h : assignUniqueRaw ((Val.tbl root).tableAt c) key value = .ok t) :
    (Val.tbl root).at? (c ++ key.map .key) = none ∧
      (∀ j < key.length, locate (((Val.tbl root).setAt c (.tbl t)).tableAt []) (base ++ key.take j) =
        some (c ++ (key.take j).map .key)) ∧
      Effect (base ++ key.dropLast) (c ++ key.dropLast.map .key) (c ++ key.map .key) value
        (fun _ => False) root (((Val.tbl root).setAt c (.tbl t)).tableAt []) := by
  obtain ⟨es, hes⟩ := locate_at? hbase
  rw [tableAt_of_at? hes] at h
  obtain ⟨hw, hnone, hlast⟩ := assignUniqueRaw_writes hne h
  have hnone' : (Val.tbl root).at? (c ++ key.map .key) = none := by
    rw [Val.at?_append, hes]
    exact hnone
  have hw' : Writes (fun _ => False) (c ++ key.map .key) value (.tbl root)
      (.tbl (((Val.tbl root).setAt c (.tbl t)).tableAt [])) := by
    rw [← setAt_tbl]
    refine (hw.setAt hes).weaken ?_
    rintro l ⟨r, -, hf⟩
    exact hf
  -- the first segments of the key lead on from the table that the header denotes
  have hways : ∀ j < key.length, locate (((Val.tbl root).setAt c (.tbl t)).tableAt [])
      (base ++ key.take j) = some (c ++ (key.take j).map .key) := by
    intro j hj
    refine locate_append_iff.mpr ⟨c, t, _, ?_, ?_, hlast j hj, rfl⟩
    · exact hw'.keeps.locate_mono hbase fun _ _ hf => hf
    · rw [← setAt_tbl]
      exact at?_setAt hes _
  have hpos : 0 < key.length := length_pos_iff.mpr hne
  refine ⟨hnone', hways, hw', .inl hnone', ?_, ?_⟩
  · rw [dropLast_eq_take]
    exact hways _ (by omega)
  intro l hl
  have hkey : key.map Step.key = key.dropLast.map .key ++ [.key (key.getLast hne)] := by
    conv_lhs => rw [← dropLast_concat_getLast hne]
    rw [map_append, map_singleton]
  rw [hkey, ← append_assoc] at hl ⊢
  rcases prefix_concat_iff.mp hl with heq | hpre
  · exact .inr heq
  · exact .inl hpre

/-! ## What the checks rule out -/

section

variable {L : Ledger} {path q : Path}

theorem not_here_of_insideClosed (h : L.insideClosed path = false) (hq : q <+: path) (hne : q ≠ []) :
    L.here L.closed q = false := by
  cases hc : L.here L.closed q with
  | false => rfl
  | true =>
    have hlen : 0 < q.length := length_pos_iff.mpr hne
    have hin : L.insideClosed path = true := by
      unfold Ledger.insideClosed
      rw [any_eq_true]
      refine ⟨q.length - 1, mem_range.mpr ?_, ?_⟩
      · have := hq.length_le
        omega
      · rw [Nat.sub_add_cancel hlen, ← prefix_iff_eq_take.mp hq]
        exact hc
    rw [hin] at h
    cases h

theorem insideClosed_of_tableConflict (h : L.tableConflict path = none) : L.insideClosed path = false := by
  unfold Ledger.tableConflict at h
  split at h
  · cases h
  split at h
  · cases h
  split at h
  · cases h
  · rename_i hc
    rwa [Bool.not_eq_true] at hc

theorem insideClosed_of_arrayTableConflict (h : L.arrayTableConflict path = none) :
    L.insideClosed path = false := by
  unfold Ledger.arrayTableConflict at h
  split at h
  · cases h
  split at h
  · cases h
  split at h
  · cases h
  · rename_i hc
    rwa [Bool.not_eq_true] at hc

theorem not_here_of_dottedConflict {base : Path} (h : L.dottedConflict base key = none)
    (hq : q ∈ Ledger.passed base key) : L.here L.closed q = false := by
  have hcheck := findSome?_eq_none_iff.mp h q hq
  split at hcheck
  · cases hcheck
  split at hcheck
  · cases hcheck
  · rename_i hc
    rwa [Bool.not_eq_true] at hc

end

/-! ## One statement -/

theorem Loc.keys_map (path : Path) : Loc.keys (path.map .key) = path := by
  induction path with
  | nil => rfl
  | cons p ps ih => exact congrArg (p :: ·) ih

theorem locate_empty {path : Path} {loc : Loc} (h : locate [] path = some loc) : path = [] ∧ loc = [] := by
  cases path with
  | nil => cases h; exact ⟨rfl, rfl⟩
  | cons p ps => cases h

section

variable {S : Path → Prop} {P : List (Loc × Val)} {L : Ledger} {doc doc' : Doc}

theorem Doc.Faithful.table (h : doc.Faithful P L) (hS : Separate S) (hkeep : doc.Keeps S L) {path : Path}
    (hp : S path) (hstep : doc.step (.table path) = .ok doc') : doc'.Faithful P (L.declare path) := by
  obtain ⟨hconf, root, loc, hens, rfl⟩ := tableHeader_ok hstep
  rw [hkeep.tableHeaderConflict hS hp] at hconf
  obtain ⟨w, hE, hnew⟩ := tableHeader_effect hens
  have hfree : ∀ e ∈ P, ¬ e.1 <+: loc := by
    intro e he hway
    obtain ⟨c, k, before, -, hb, -, hhere⟩ := h.holds.closed_of_onWay hE he hway
    rw [not_here_of_insideClosed (insideClosed_of_tableConflict hconf) hb (by simp)] at hhere
    cases hhere
  refine ⟨⟨h.holds.values_effect hE hfree, h.holds.apart, h.holds.keyed, ?_, ?_⟩, loc, rfl, hE.leads, hfree⟩
  · exact h.holds.made_effect hE (fun e he => he) fun hn => .inr (hnew hn)
  intro e he hcont c k q hck hq
  unfold Ledger.here
  rw [Ledger.scope_declare]
  exact h.holds.closed e he hcont c k q hck (h.holds.locate_effect hE he hck hq)

theorem Doc.Faithful.arrayTable (h : doc.Faithful P L) (hS : Separate S) (hkeep : doc.Keeps S L) {path : Path}
    (hp : S path) (hstep : doc.step (.arrayTable path) = .ok doc') : doc'.Faithful P (L.addElement path) := by
  obtain ⟨hconf, root, loc, happ, rfl⟩ := arrayTableHeader_ok hstep
  rw [hkeep.arrayTableHeaderConflict hS hp] at hconf
  obtain ⟨_, _, _, -, -, -, hnone, hE⟩ := arrayTableHeader_effect (hS.nonempty path hp) happ
  have hin := insideClosed_of_arrayTableConflict hconf
  have hfree : ∀ e ∈ P, ¬ e.1 <+: loc := by
    intro e he hway
    obtain ⟨c, k, before, -, hb, -, hhere⟩ := h.holds.closed_of_onWay hE he hway
    rw [not_here_of_insideClosed hin hb (by simp)] at hhere
    cases hhere
  refine ⟨⟨h.holds.values_effect hE hfree, h.holds.apart, h.holds.keyed, ?_, ?_⟩, loc, rfl, hE.leads, hfree⟩
  · exact h.holds.made_effect hE (fun e he => he) fun _ => .inr rfl
  intro e he hcont c k q hck hq
  have hhere := h.holds.closed e he hcont c k q hck (h.holds.locate_effect hE he hck hq)
  -- the path of the value does not lie below the new element
  have hoff : ¬ path <+: q ++ [k] := by
    intro hpre
    rcases prefix_concat_iff.mp hpre with heq | ⟨rest, rfl⟩
    · rw [← heq, not_here_of_insideClosed hin (prefix_refl _) (hS.nonempty path hp)] at hhere
      cases hhere
    -- the new element is empty, so the path would lead to it, where there was nothing
    obtain ⟨loc₁, es, loc₂, h₁, hes, h₂, rfl⟩ := locate_append_iff.mp hq
    change locate root path = some loc₁ at h₁
    rw [hE.leads] at h₁
    cases h₁
    have hput := hE.writes.put []
    rw [append_nil] at hput
    rw [show (Val.tbl root).at? loc = some (.tbl es) from hes] at hput
    cases hput
    obtain ⟨-, rfl⟩ := locate_empty h₂
    have hval := h.holds.values e he
    rw [hck, append_nil, Val.at?_append, hnone] at hval
    cases hval
  unfold Ledger.here
  rw [Ledger.scope_addElement hoff]
  exact hhere

theorem mem_containerPaths_self {path : Path} (h : value.isContainer = true) :
    path ∈ containerPaths path value := by
  cases value with
  | tbl es | arr xs => exact mem_cons_self
  | _ => cases h

/-- A value that a key would go through is one that the checks of the key see. -/
theorem passed_of_between {base before : Path} {c c' : Loc} {k : Bytes} (hc : Loc.keys c = base)
    (hc' : Loc.keys c' = before) (hout : ¬ c' ++ [.key k] <+: c)
    (hway : c' ++ [.key k] <+: c ++ key.dropLast.map .key) : before ++ [k] ∈ Ledger.passed base key := by
  rcases prefix_append_cases hway with hpre | ⟨r, hr, hpre⟩
  · exact absurd hpre hout
  have hne : r ≠ [] := by
    rintro rfl
    rw [append_nil] at hr
    exact hout ⟨[], by rw [append_nil, hr]⟩
  have hkeys : before ++ [k] = base ++ Loc.keys r := by
    have := congrArg Loc.keys hr
    rwa [Loc.keys_append, Loc.keys_append, hc, hc'] at this
  have hrkeys : Loc.keys r = key.dropLast.take r.length := by
    rw [prefix_iff_eq_take.mp hpre, ← map_take, Loc.keys_map, length_map]
    congr 1
    have := hpre.length_le
    rw [length_map] at this
    rw [length_take]
    omega
  have hlen : r.length ≤ key.length - 1 := by
    have := hpre.length_le
    rwa [length_map, length_dropLast] at this
  have hpos : 0 < r.length := length_pos_iff.mpr hne
  refine mem_passed.mpr ⟨r.length - 1, by omega, ?_⟩
  rw [hkeys, hrkeys, Nat.sub_add_cancel hpos, dropLast_eq_take, take_take]
  congr 2
  omega

theorem Doc.Faithful.keyValue (h : doc.Faithful P L) (hS : Separate S) (hkeep : doc.Keeps S L) (hne : key ≠ [])
    (hw : S (doc.currentPath ++ key)) (hstep : doc.step (.keyValue key value) = .ok doc') :
    ∃ c, locate doc.root doc.currentPath = some c ∧
      doc'.Faithful (P ++ [(c ++ key.map .key, value)]) (L.assign doc.currentPath key value) := by
  obtain ⟨c, hcur, hbase, hout⟩ := h.current
  refine ⟨c, hbase, ?_⟩
  obtain ⟨hconf, t, ht, rfl⟩ := keyValue_ok hcur hstep
  rw [hkeep.dottedKeyConflict hS hw] at hconf
  obtain ⟨hnone, -, hE⟩ := assign_effect hne hbase ht
  have hfree : ∀ e ∈ P, ¬ e.1 <+: c ++ key.map .key := by
    intro e he hpre
    rcases hE.ends e.1 hpre with hway | heq
    · obtain ⟨c', k, before, hck, -, hbefore, hhere⟩ := h.holds.closed_of_onWay hE he hway
      have hpass : before ++ [k] ∈ Ledger.passed doc.currentPath key := by
        refine passed_of_between (locate_keys hbase) (locate_keys hbefore) ?_ ?_
        · rw [← hck]; exact hout e he
        · rw [← hck]; exact hway
      rw [not_here_of_dottedConflict hconf hpass] at hhere
      cases hhere
    · have hval := h.holds.values e he
      rw [heq, hnone] at hval
      cases hval
  have hlast : key.map Step.key = key.dropLast.map .key ++ [.key (key.getLast hne)] := by
    conv_lhs => rw [← dropLast_concat_getLast hne]
    rw [map_append, map_singleton]
  refine ⟨⟨?_, ?_, ?_, ?_, ?_⟩, c, hcur, ?_, ?_⟩
  · intro e he
    rcases mem_append.mp he with he | he
    · exact h.holds.values_effect hE hfree e he
    rw [mem_singleton] at he
    subst he
    have hput := hE.writes.put []
    rwa [append_nil] at hput
  · refine pairwise_append.mpr ⟨h.holds.apart, pairwise_singleton _ _, ?_⟩
    intro e he f hf
    rw [mem_singleton] at hf
    subst hf
    refine ⟨hfree e he, ?_⟩
    -- there was nothing at the new place, so no value lies below it
    rintro ⟨r, hr⟩
    have hval := h.holds.values e he
    rw [← hr, Val.at?_append, hnone] at hval
    cases hval
  · intro e he
    rcases mem_append.mp he with he | he
    · exact h.holds.keyed e he
    rw [mem_singleton] at he
    subst he
    exact ⟨c ++ key.dropLast.map .key, key.getLast hne, by rw [append_assoc, ← hlast]⟩
  · exact h.holds.made_effect hE (fun e he => mem_append_left _ he)
      fun _ => .inl (mem_append_right _ mem_cons_self)
  · intro e he hcont c' k q hck hq
    unfold Ledger.here
    rw [Ledger.scope_assign]
    change ((if q ++ [k] ∈ containerPaths (doc.currentPath ++ key) value then some (L.scope (q ++ [k]))
      else L.closed (q ++ [k])) == _) = true
    split
    · exact beq_self_eq_true _
    rename_i hnot
    rcases mem_append.mp he with he | he
    · exact h.holds.closed e he hcont c' k q hck (h.holds.locate_effect hE he hck hq)
    -- the new value itself is marked
    exfalso
    apply hnot
    rw [mem_singleton] at he
    subst he
    have hkeys : q ++ [k] = doc.currentPath ++ key := by
      have := congrArg Loc.keys hck
      rw [Loc.keys_append, Loc.keys_append, Loc.keys_map, locate_keys hbase, locate_keys hq] at this
      exact this.symm
    rw [hkeys]
    exact mem_containerPaths_self hcont
  · exact hE.writes.keeps.locate_mono hbase fun _ _ hf => hf
  · intro e he
    rcases mem_append.mp he with he | he
    · exact hout e he
    rw [mem_singleton] at he
    subst he
    intro hpre
    have hlen := hpre.length_le
    rw [length_append, length_map] at hlen
    have := length_pos_iff.mpr hne
    omega

/-- **A statement keeps the invariant**, with its own value added. -/
theorem Doc.Faithful.step (h : doc.Faithful P L) (hS : Separate S) (hkeep : doc.Keeps S L)
    {stmt : Stmt} (hkey : ∀ key value, stmt = .keyValue key value → key ≠ [])
    (hw : stmt.Within S doc.currentPath) (hstep : doc.step stmt = .ok doc') :
    ∃ now, stmt.place? doc = some now ∧
      doc'.Faithful (P ++ now) (L.step doc.currentPath stmt) := by
  cases stmt with
  | comment | stray k => cases hstep; exact ⟨[], rfl, by rw [append_nil]; exact h⟩
  | table path => exact ⟨[], rfl, by rw [append_nil]; exact h.table hS hkeep hw hstep⟩
  | arrayTable path => exact ⟨[], rfl, by rw [append_nil]; exact h.arrayTable hS hkeep hw hstep⟩
  | keyValue key value =>
    obtain ⟨c, hc, hfaith⟩ := h.keyValue hS hkeep (hkey key value rfl) hw.1 hstep
    refine ⟨[(c ++ key.map .key, value)], ?_, hfaith⟩
    show (locate doc.root doc.currentPath).map _ = _
    rw [hc]
    rfl

end

/-! ## Runs -/

theorem Turns.key_ne_nil {s s' : DocState} {stmt : Stmt} {toks : List RawToken} (h : Turns s stmt toks s')
    (hstmt : stmt = .keyValue key value) : key ≠ [] := by
  cases h with
  | keyValue _ _ hkey => cases hstmt; exact keyPath_ne_nil hkey
  | _ => cases hstmt

/-- **Along a run the tree holds the values of the statements read so far.** -/
theorem Run.faithful {S : Path → Prop} (hS : Separate S) {s s' : DocState} {stmts : List Stmt}
    {toks : List RawToken} (hrun : Run s stmts toks s') {P : List (Loc × Val)} {L : Ledger}
    (h : s.doc.Faithful P L) (hkeep : s.doc.Keeps S L) (hopen : s.doc.Unfiltered)
    (hw : StmtsWithin S stmts s.doc.currentPath) :
    ∃ placed, placements s.doc stmts = some placed ∧
      s'.doc.Faithful (P ++ placed) (Ledger.after stmts (L, s.doc.currentPath)).1 := by
  induction hrun generalizing P L with
  | nil => exact ⟨[], rfl, by rw [append_nil]; exact h⟩
  | @cons s s₁ s' stmt stmts toks more ht _ ih =>
    obtain ⟨now, hnow, hfaith⟩ := h.step hS hkeep (fun _ _ => ht.key_ne_nil) hw.1 ht.doc
    obtain ⟨hkeep₁, hbase⟩ := hkeep.step hS hopen hw.1 ht.doc
    obtain ⟨placed, hplaced, hend⟩ := ih hfaith hkeep₁ (Doc.step_unfiltered hopen ht.doc) (hbase ▸ hw.2)
    refine ⟨now ++ placed, placements_cons ht.doc hnow hplaced, ?_⟩
    rw [hbase, append_assoc] at hend
    exact hend

/-- **No statement is lost, overwritten or merged into a closed value**, in any state that a run reaches
    whose paths are told apart by their strings; and every accepted document is such a run to its end. -/
theorem statementsKept (S : Path → Prop) (hS : Separate S) (data : Bytes) (opts : List Decoder.DecoderOption) :
    (∀ stmts toks s, Run (startState data opts) stmts toks s → StmtsWithin S stmts [] →
      ∃ placed, placements (Doc.empty .all) stmts = some placed ∧
        KeepsStatements s.doc.root placed) ∧
    ∀ lower root, parseDocument lower data opts .all = .ok root →
      ∃ stmts toks s d, Run (startState data opts) stmts toks s ∧
        s.dec.readToken = (.error .eof, d) ∧ s.doc.root = root := by
  constructor
  · intro stmts toks s hrun hw
    obtain ⟨placed, hplaced, hfaith⟩ :=
      hrun.faithful hS faithful_empty (keeps_empty S) (startState_unfiltered data opts) hw
    exact ⟨placed, hplaced, hfaith.holds.keepsStatements⟩
  · intro lower root h
    exact parseDocument_ok h

/-- The document `[t]`, `a = {x = 1}`, `b.c = [2]`. -/
def headerAndValues : Bytes := ascii "[t]\na = \x7bx = 1\x7d\nb.c = [2]\n"

/-- Its statements. -/
def headerAndValuesStmts : List Stmt :=
  [.table [ascii "t"], .keyValue [ascii "a"] (.tbl [(ascii "x", .int 1)]),
    .keyValue [ascii "b", ascii "c"] (.arr [.int 2])]

/-- A header, an inline table and a later statement below the same header. -/
theorem statementsKept_header_values :
    ∃ toks s, Run (startState headerAndValues []) headerAndValuesStmts toks s ∧
      KeepsStatements s.doc.root
        [([.key (ascii "t"), .key (ascii "a")], .tbl [(ascii "x", .int 1)]),
          ([.key (ascii "t"), .key (ascii "b"), .key (ascii "c")], .arr [.int 2])] := by
  have hkeys : keyPath (ascii "a") = .ok [ascii "a"] ∧ keyPath (ascii "b.c") = .ok [ascii "b", ascii "c"] := by
    decide +kernel
  have h₁ : Turns (startState headerAndValues []) (.table [ascii "t"]) [⟨.tableHeader, ascii "[t]", 0⟩] _ :=
    .table (Prod.ext (by decide +kernel) rfl) rfl (by decide +kernel) rfl
  have hf₁ := (Run.cons h₁ (.nil _)).reads.flags (startState_flags _ _)
  obtain ⟨toks₂, h₂⟩ := turns_keyValue hf₁
    (show Decoder.readToken _ = (.ok ⟨.key, ascii "a", 4⟩, _) from Prod.ext (by decide +kernel) rfl) rfl hkeys.1
    (show parseNextValue _ = (.ok (.tbl [(ascii "x", .int 1)]), _) from Prod.ext (by decide +kernel) rfl) rfl
  have hf₂ := (Run.cons h₂ (.nil _)).reads.flags hf₁
  obtain ⟨toks₃, h₃⟩ := turns_keyValue hf₂
    (show Decoder.readToken _ = (.ok ⟨.key, ascii "b.c", 16⟩, _) from Prod.ext (by decide +kernel) rfl) rfl hkeys.2
    (show parseNextValue _ = (.ok (.arr [.int 2]), _) from Prod.ext (by decide +kernel) rfl) rfl
  have hrun := Run.cons h₁ (.cons h₂ (.cons h₃ (.nil _)))
  have hw : StmtsWithin (fun p => p ≠ [] ∧ NulFree p) headerAndValuesStmts [] := by
    simp [headerAndValuesStmts, StmtsWithin, Stmt.Within, Stmt.base, containerPaths, entryPaths, elementPaths,
      NulFree]
    decide
  obtain ⟨placed, hplaced, hkeeps⟩ := (statementsKept _ separate_nulFree _ _).1 _ _ _ hrun hw
  cases hplaced
  exact ⟨_, _, hrun, hkeeps⟩

/-- The key of one segment with a NUL between `a` and `b`. -/
def nulKey : Bytes := [0x61, 0x00, 0x62]

/-- An inline table, and a later value that is filed under the same string in another context. -/
def maskedText : Bytes :=
  ascii "\"a\\u0000b\" = \x7bx = 1\x7d\n[[a]]\nb = \x7by = 1\x7d\n[\"a\\u0000b\".z]\n"

/-- The decoder behind the first value of the text. -/
def maskedValue : Decoder := (parseNextValue (startState maskedText []).dec.readToken.2).2

/-- The decoder behind the second value of the text. -/
def maskedElement : Decoder := (parseNextValue maskedValue.readToken.2.readToken.2).2

/-- **A header extends an inline table** that a NUL hides from the checks. -/
theorem not_statementsKept_nul :
    parseDocument id maskedText [] .all =
        .ok [(ascii "a", .arr [.tbl [(ascii "b", .tbl [(ascii "y", .int 1)])]]),
          (nulKey, .tbl [(ascii "x", .int 1), (ascii "z", .tbl [])])] ∧
      ∃ stmts toks s placed, Run (startState maskedText []) stmts toks s ∧
        (∃ d, s.dec.readToken = (.error .eof, d)) ∧
        placements (Doc.empty .all) stmts = some placed ∧ ¬ KeepsStatements s.doc.root placed := by
  refine ⟨by decide +kernel, ?_⟩
  -- the key with the NUL and its inline table
  have hread₁ : (startState maskedText []).dec.readToken =
      (.ok ⟨.key, ascii "\"a\\u0000b\"", 0⟩, _) := Prod.ext (by decide +kernel) rfl
  have hkey₁ : keyPath (ascii "\"a\\u0000b\"") = .ok [nulKey] := by decide +kernel
  have hval₁ : parseNextValue (startState maskedText []).dec.readToken.2 =
      (.ok (.tbl [(ascii "x", .int 1)]), maskedValue) := Prod.ext (by decide +kernel) rfl
  obtain ⟨toks₁, ht₁⟩ := turns_keyValue (startState_flags _ _) hread₁ rfl hkey₁ hval₁ rfl
  have hrun₁ := (Run.nil _).snoc ht₁
  -- the array of tables, and the value that is filed under the same string
  have hread₂ : maskedValue.readToken = (.ok ⟨.arrayTableHeader, ascii "[[a]]", 21⟩, _) :=
    Prod.ext (by decide +kernel) rfl
  have hkey₂ : keyPath (trimHeaderKey (ascii "[[a]]") true) = .ok [ascii "a"] := by decide +kernel
  have hrun₂ := hrun₁.snoc (.arrayTable hread₂ rfl hkey₂ rfl)
  have hread₃ : maskedValue.readToken.2.readToken = (.ok ⟨.key, ascii "b", 27⟩, _) :=
    Prod.ext (by decide +kernel) rfl
  have hkey₃ : keyPath (ascii "b") = .ok [ascii "b"] := by decide +kernel
  have hval₃ : parseNextValue maskedValue.readToken.2.readToken.2 =
      (.ok (.tbl [(ascii "y", .int 1)]), maskedElement) := Prod.ext (by decide +kernel) rfl
  obtain ⟨toks₃, ht₃⟩ := turns_keyValue (hrun₂.reads.flags (startState_flags _ _)) hread₃ rfl hkey₃ hval₃ rfl
  have hrun₃ := hrun₂.snoc ht₃
  -- the header that should be refused
  have hread₄ : maskedElement.readToken =
      (.ok ⟨.tableHeader, ascii "[\"a\\u0000b\".z]", 39⟩, _) := Prod.ext (by decide +kernel) rfl
  have hkey₄ : keyPath (trimHeaderKey (ascii "[\"a\\u0000b\".z]") false) = .ok [nulKey, ascii "z"] := by
    decide +kernel
  have hrun₄ := hrun₃.snoc (.table hread₄ rfl hkey₄ rfl)
  refine ⟨_, _, _, _, hrun₄, ⟨_, Prod.ext (by decide +kernel) rfl⟩, rfl, ?_⟩
  intro hkeeps
  have hfound := hkeeps.found _ mem_cons_self
  revert hfound
  decide +kernel

end Pandaemonium.Toml
