import Pandaemonium.Toml.Placement

/-!
# `Toml.Elements` — headers under the elements of arrays of tables

A header is to be rejected only because of the very table that its path denotes: `TableTaken` and
`ArrayTaken` say when that table is taken, by the place of the table in the tree and not by its path. The
parser asks its maps instead, where a path counts as recorded when it was recorded in the scope it has
now. That is the same table as long as every array of tables above it has `Standing`: its last element was
opened after the last element of the arrays around it (`rejectedHeaders`). The map of arrays of tables,
and that of declared tables for a `[[path]]` header, are asked without any scope.
-/

namespace Pandaemonium.Toml

open List
open SortedMap (get?)

/-! ## What is asked -/

/-- The place of what `path` names, the last segment not followed into an element. -/
def place? (root : Table) (path : Path) : Option Loc :=
  match path.getLast? with
  | none => none
  | some k => (locate root path.dropLast).map (· ++ [.key k])

/-- Collect places along a list of statements, from the documents before and after each. -/
def gather (f : Doc → Stmt → Doc → List Loc) (doc : Doc) : List Stmt → List Loc
  | [] => []
  | stmt :: stmts =>
    match doc.step stmt with
    | .ok doc' => f doc stmt doc' ++ gather f doc' stmts
    | .error _ => []

/-- The table that a `[path]` header declares. -/
def declaresAt (_ : Doc) (stmt : Stmt) (doc' : Doc) : List Loc :=
  match stmt with
  | .table path => (locate doc'.root path).toList
  | _ => []

/-- The tables that a dotted key passes through. -/
def passesAt (doc : Doc) (stmt : Stmt) (_ : Doc) : List Loc :=
  match stmt with
  | .keyValue key _ =>
    (locate doc.root doc.currentPath).toList.flatMap fun c =>
      (Ledger.passed [] key).map fun q => c ++ q.map .key
  | _ => []

/-- The tables that a dotted key creates. -/
def createsAt (doc : Doc) (stmt : Stmt) (doc' : Doc) : List Loc :=
  (passesAt doc stmt doc').filter fun l => ((Val.tbl doc.root).at? l).isNone

/-- What stands in a tree, by place: the tables declared by headers, the tables of dotted keys and the
    values of key/value statements. -/
structure Record where
  declared : List Loc
  dotted : List Loc
  placed : List (Loc × Val)

/-- `path` leads into the value of a key/value statement, or to the value itself. -/
def InsideValue (root : Table) (R : Record) (path : Path) : Prop :=
  ∃ q, q <+: path ∧ ∃ e ∈ R.placed, place? root q = some e.1

/-- **The table that `[path]` would open is taken.** -/
inductive TableTaken (root : Table) (R : Record) (path : Path) : Prop
  | declared {loc : Loc} : locate root path = some loc → loc ∈ R.declared → TableTaken root R path
  | array {loc : Loc} {xs : List Val} : place? root path = some loc →
      (Val.tbl root).at? loc = some (.arr xs) → (∀ e ∈ R.placed, ¬ e.1 <+: loc) → TableTaken root R path
  | dotted {loc : Loc} : place? root path = some loc → loc ∈ R.dotted → TableTaken root R path
  | inline : InsideValue root R path → TableTaken root R path

/-- **The array of tables that `[[path]]` would extend cannot be there.** -/
inductive ArrayTaken (root : Table) (R : Record) (path : Path) : Prop
  | declared {loc : Loc} : locate root path = some loc → loc ∈ R.declared → ArrayTaken root R path
  | table {loc : Loc} {es : Table} : place? root path = some loc →
      (Val.tbl root).at? loc = some (.tbl es) → ArrayTaken root R path
  | dotted {loc : Loc} : place? root path = some loc → loc ∈ R.dotted → ArrayTaken root R path
  | inline : InsideValue root R path → ArrayTaken root R path

section

variable {root : Table} {declared dotted dotted' : List Loc} {placed : List (Loc × Val)} {path : Path}

theorem TableTaken.of_dotted (h : TableTaken root ⟨declared, dotted, placed⟩ path)
    (himp : ∀ loc, place? root path = some loc → loc ∈ dotted → loc ∈ dotted') :
    TableTaken root ⟨declared, dotted', placed⟩ path := by
  cases h with
  | declared hloc hmem => exact .declared hloc hmem
  | array hplace hat hfree => exact .array hplace hat hfree
  | dotted hplace hmem => exact .dotted hplace (himp _ hplace hmem)
  | inline hin => exact .inline hin

theorem ArrayTaken.of_dotted (h : ArrayTaken root ⟨declared, dotted, placed⟩ path)
    (himp : ∀ loc, place? root path = some loc → loc ∈ dotted → loc ∈ dotted') :
    ArrayTaken root ⟨declared, dotted', placed⟩ path := by
  cases h with
  | declared hloc hmem => exact .declared hloc hmem
  | table hplace hat => exact .table hplace hat
  | dotted hplace hmem => exact .dotted hplace (himp _ hplace hmem)
  | inline hin => exact .inline hin

end

/-! ## Standing -/

/-- Since `stmt` was last read, no array of tables at or above `q` has got a new element. -/
def Standing (stmts : List Stmt) (stmt : Stmt) (q : Path) : Prop :=
  ∀ before after, stmts = before ++ stmt :: after → stmt ∉ after →
    ∀ r, r <+: q → .arrayTable r ∉ after

/-- Every array of tables above `path` got its last element after those around it got theirs. -/
def AllStanding (stmts : List Stmt) (path : Path) : Prop :=
  ∀ q, q <+: path → Standing stmts (.arrayTable q) q

section

variable {stmts : List Stmt} {stmt last : Stmt} {q path : Path}

/-- A statement that is read is read a last time. -/
theorem exists_last {α : Type} {x : α} {l : List α} (h : x ∈ l) :
    ∃ before after, l = before ++ x :: after ∧ x ∉ after := by
  induction l with
  | nil => cases h
  | cons y l ih =>
    by_cases hl : x ∈ l
    · obtain ⟨before, after, rfl, hnot⟩ := ih hl
      exact ⟨y :: before, after, rfl, hnot⟩
    rcases mem_cons.mp h with rfl | h
    · exact ⟨[], l, rfl, hl⟩
    · exact absurd h hl

/-- What stands after one more statement stood before it. -/
theorem Standing.before (h : Standing (stmts ++ [last]) stmt q) (hne : last ≠ stmt) :
    Standing stmts stmt q := by
  intro before after heq hnot r hr hmem
  refine h before (after ++ [last]) (by rw [heq]; simp) ?_ r hr (mem_append_left _ hmem)
  intro hm
  rcases mem_append.mp hm with hm | hm
  · exact hnot hm
  · exact hne (mem_singleton.mp hm).symm

/-- A new element above `q` ends the standing of what was read before. -/
theorem not_standing_of_element (hmem : stmt ∈ stmts) (hne : Stmt.arrayTable path ≠ stmt)
    (hpre : path <+: q) : ¬ Standing (stmts ++ [.arrayTable path]) stmt q := by
  intro h
  obtain ⟨before, after, rfl, hnot⟩ := exists_last hmem
  refine h before (after ++ [.arrayTable path]) (by simp) ?_ path hpre (by simp)
  intro hm
  rcases mem_append.mp hm with hm | hm
  · exact hnot hm
  · exact hne (mem_singleton.mp hm).symm

theorem AllStanding.before (h : AllStanding (stmts ++ [last]) path)
    (hne : ∀ q, q <+: path → last ≠ .arrayTable q) : AllStanding stmts path :=
  fun q hq => (h q hq).before (hne q hq)

theorem AllStanding.shorter (h : AllStanding stmts path) (hq : q <+: path) : AllStanding stmts q :=
  fun r hr => h r (hr.trans hq)

end

/-! ## Scopes -/

variable {L : Ledger}

/-- The scope of a path is its longest prefix that is an array of tables. -/
theorem Ledger.scope_some {q r : Path} {n : Nat} (h : L.scope q = some (r, n)) :
    r <+: q ∧ n = L.elements r ∧ 0 < n ∧
      ∀ r', r' <+: q → r' ≠ [] → 0 < L.elements r' → r' <+: r := by
  have key : ∀ i ≤ q.length, L.scopeUpTo q i = some (r, n) →
      r <+: q ∧ n = L.elements r ∧ 0 < n ∧
        ∀ j, j < i → 0 < L.elements (q.take (j + 1)) → q.take (j + 1) <+: r := by
    intro i hi hs
    induction i with
    | zero => cases hs
    | succ i ih =>
      unfold Ledger.scopeUpTo at hs
      split at hs
      · rename_i hpos
        cases hs
        refine ⟨ take_prefix _ _, rfl, hpos, ?_⟩
        intro j hj _
        exact take_prefix_take_left (by omega)
      · rename_i hzero
        obtain ⟨hpre, hn, hpos, hlong⟩ := ih (by omega) hs
        refine ⟨hpre, hn, hpos, ?_⟩
        intro j hj hel
        rcases Nat.lt_or_eq_of_le (Nat.le_of_lt_succ hj) with hlt | heq
        · exact hlong j hlt hel
        · subst heq
          exact absurd hel hzero
  obtain ⟨hpre, hn, hpos, hlong⟩ := key _ (Nat.le_refl _) h
  refine ⟨hpre, hn, hpos, ?_⟩
  intro r' hr' hne hel
  have hlen : 0 < r'.length := length_pos_iff.mpr hne
  have htake : q.take (r'.length - 1 + 1) = r' := by
    rw [Nat.sub_add_cancel hlen, ← prefix_iff_eq_take.mp hr']
  have hle := hr'.length_le
  have := hlong (r'.length - 1) (by omega) (by rw [htake]; exact hel)
  rwa [htake] at this

theorem Ledger.scope_ne_none {q r : Path} (hr : r <+: q) (hne : r ≠ [])
    (hel : 0 < L.elements r) : L.scope q ≠ none := by
  have hlen : 0 < r.length := length_pos_iff.mpr hne
  have key : ∀ i, r.length ≤ i → L.scopeUpTo q i ≠ none := by
    intro i hi
    induction i with
    | zero => omega
    | succ i ih =>
      unfold Ledger.scopeUpTo
      split
      · simp
      rename_i hzero
      apply ih
      rcases Nat.lt_or_eq_of_le hi with hlt | heq
      · omega
      exfalso
      apply hzero
      rw [← heq, ← prefix_iff_eq_take.mp hr]
      exact hel
  exact key _ hr.length_le

/-! ## Records and the tables they were made for -/

/-- The statement gives an array of tables at or above `q` a new element. -/
def Moves (stmt : Stmt) (q : Path) : Prop := ∃ path, stmt = .arrayTable path ∧ path <+: q

theorem Ledger.scope_step {base q : Path} {stmt : Stmt} (h : ¬ Moves stmt q) :
    (L.step base stmt).scope q = L.scope q := by
  cases stmt with
  | comment | stray k => rfl
  | table path => exact L.scope_declare path q
  | arrayTable path => exact Ledger.scope_addElement fun hp => h ⟨path, rfl, hp⟩
  | keyValue key value => exact L.scope_assign base key q value

theorem Ledger.elements_step_le (L : Ledger) (base : Path) (stmt : Stmt) (q : Path) :
    L.elements q ≤ (L.step base stmt).elements q := by
  cases stmt with
  | arrayTable path =>
    show L.elements q ≤ if q = path then L.elements path + 1 else L.elements q
    split
    · rename_i heq
      rw [heq]
      omega
    · exact Nat.le_refl _
  | _ => exact Nat.le_refl _

/-- No recorded scope is ahead of the elements there are. -/
def Ledger.Counted (L : Ledger) (m : Path → Option Scope) : Prop :=
  ∀ q r n, m q = some (some (r, n)) → n ≤ L.elements r

/-- An entry of `m` in the present scope, under arrays that stand, speaks the truth about the tree. -/
def Tracks (stmts : List Stmt) (L : Ledger) (m : Path → Option Scope) (Q : Path → Prop) : Prop :=
  ∀ q, m q = some (L.scope q) → AllStanding stmts q → Q q

section

variable {stmts : List Stmt} {stmt : Stmt} {L : Ledger} {base : Path} {m m' : Path → Option Scope}
  {Q Q' : Path → Prop}

theorem Ledger.Counted.step (h : L.Counted m)
    (hnew : ∀ q, m' q = m q ∨ m' q = some (L.scope q)) : (L.step base stmt).Counted m' := by
  intro q r n hm
  refine Nat.le_trans ?_ (L.elements_step_le base stmt r)
  rcases hnew q with hold | hnow
  · exact h q r n (hold ▸ hm)
  · rw [hm, Option.some.injEq] at hnow
    exact Nat.le_of_eq (Ledger.scope_some hnow.symm).2.1

/-- **What a record says outlives a statement** that leaves what it says alone. A statement that moves
    the path makes the record one of another scope, or ends the standing of the scope. -/
theorem Tracks.step (h : Tracks stmts L m Q) (hcount : L.Counted m)
    (hknown : ∀ q, 0 < L.elements q → .arrayTable q ∈ stmts) (hne : ∀ path, stmt = .arrayTable path → path ≠ [])
    (hQ : ∀ q, ¬ Moves stmt q → Q q → Q' q) : Tracks (stmts ++ [stmt]) (L.step base stmt) m Q' := by
  intro q hm hall
  by_cases hmoves : Moves stmt q
  · exfalso
    obtain ⟨path, rfl, hpre⟩ := hmoves
    have hpath := hne path rfl
    have hel : (L.addElement path).elements path = L.elements path + 1 := if_pos rfl
    change m q = some ((L.addElement path).scope q) at hm
    cases hscope : (L.addElement path).scope q with
    | none => exact Ledger.scope_ne_none hpre hpath (by omega) hscope
    | some sc =>
      obtain ⟨r, n⟩ := sc
      obtain ⟨hr, hn, hpos, hlong⟩ := Ledger.scope_some hscope
      by_cases heq : r = path
      · subst heq
        rw [hscope] at hm
        have := hcount q r n hm
        omega
      · -- a longer array of tables, last extended before the new element
        have hold : (L.addElement path).elements r = L.elements r := if_neg heq
        have hin := hknown r (by omega)
        have hup := hlong path hpre hpath (by omega)
        refine not_standing_of_element hin ?_ hup (hall r hr)
        intro he
        cases he
        exact heq rfl
  · apply hQ q hmoves
    apply h q
    · rw [Ledger.scope_step hmoves] at hm
      exact hm
    apply hall.before
    rintro r hr rfl
    exact hmoves ⟨r, rfl, hr⟩

/-- New entries may be added that speak the truth. -/
theorem Tracks.add (h : Tracks stmts L m Q) (hnew : ∀ q, m' q = m q ∨ Q q) : Tracks stmts L m' Q := by
  intro q hm hall
  rcases hnew q with hold | hq
  · exact h q (hold ▸ hm) hall
  · exact hq

end

/-! ## The invariant -/

/-- **The maps and the tree agree** about the tables that stand. -/
structure Accounts (stmts : List Stmt) (R : Record) (L : Ledger) (root : Table) : Prop where
  known : ∀ q, 0 < L.elements q → .arrayTable q ∈ stmts
  read : ∀ q, (L.declared q).isSome = true → .table q ∈ stmts
  countedDeclared : L.Counted L.declared
  countedDotted : L.Counted L.dotted
  countedClosed : L.Counted L.closed
  arrays : ∀ q, .arrayTable q ∈ stmts → Standing stmts (.arrayTable q) q →
    ∃ loc xs, place? root q = some loc ∧ (Val.tbl root).at? loc = some (.arr xs) ∧
      ∀ e ∈ R.placed, ¬ e.1 <+: loc
  tables : ∀ q, .table q ∈ stmts → Standing stmts (.table q) q →
    ∃ loc ∈ R.declared, locate root q = some loc
  declared : Tracks stmts L L.declared fun q => ∃ loc ∈ R.declared, locate root q = some loc
  dotted : Tracks stmts L L.dotted fun q => ∃ loc ∈ R.dotted, place? root q = some loc
  closed : Tracks stmts L L.closed (InsideValue root R)

theorem accounts_empty : Accounts [] ⟨[], [], []⟩ Ledger.empty [] where
  known := fun _ h => absurd h (Nat.lt_irrefl 0)
  read := by intro q h; cases h
  countedDeclared := by intro q r n h; cases h
  countedDotted := by intro q r n h; cases h
  countedClosed := by intro q r n h; cases h
  arrays := by intro q h; cases h
  tables := by intro q h; cases h
  declared := by intro q h; cases h
  dotted := by intro q h; cases h
  closed := by intro q h; cases h

/-- What a statement leaves in place: paths it does not move lead where they led, nothing is removed, and
    new values come where there was nothing. -/
structure Advance (stmt : Stmt) (R R' : Record) (root root' : Table) : Prop where
  steady : ∀ q loc, ¬ Moves stmt q → locate root q = some loc → locate root' q = some loc
  grows : ∃ grown, Extends grown (.tbl root) (.tbl root')
  declared : ∀ loc ∈ R.declared, loc ∈ R'.declared
  dotted : ∀ loc ∈ R.dotted, loc ∈ R'.dotted
  placed : ∀ e ∈ R.placed, e ∈ R'.placed
  fresh : ∀ e ∈ R'.placed, e ∈ R.placed ∨ (Val.tbl root).at? e.1 = none

section

variable {stmts : List Stmt} {stmt : Stmt} {R R' : Record} {L : Ledger} {root root' : Table}
  {base q : Path} {loc : Loc}

theorem Advance.place (h : Advance stmt R R' root root') (hq : ¬ Moves stmt q)
    (hp : place? root q = some loc) : place? root' q = some loc := by
  unfold place? at hp ⊢
  cases hk : q.getLast? with
  | none => rw [hk] at hp; cases hp
  | some k =>
    rw [hk] at hp
    obtain ⟨c, hc, rfl⟩ := Option.map_eq_some_iff.mp hp
    have hnot : ¬ Moves stmt q.dropLast := by
      rintro ⟨path, hs, hpre⟩
      exact hq ⟨path, hs, hpre.trans ( dropLast_prefix q)⟩
    exact Option.map_eq_some_iff.mpr ⟨c, h.steady _ _ hnot hc, rfl⟩

theorem Advance.insideValue (h : Advance stmt R R' root root') (hq : ¬ Moves stmt q)
    (hin : InsideValue root R q) : InsideValue root' R' q := by
  obtain ⟨q₀, hpre, e, he, hplace⟩ := hin
  refine ⟨q₀, hpre, e, h.placed e he, h.place ?_ hplace⟩
  rintro ⟨path, hs, hp⟩
  exact hq ⟨path, hs, hp.trans hpre⟩

/-- An array of tables stays one. -/
theorem Advance.array (h : Advance stmt R R' root root') {xs : List Val}
    (hat : (Val.tbl root).at? loc = some (.arr xs)) (hfree : ∀ e ∈ R.placed, ¬ e.1 <+: loc) :
    (∃ ys, (Val.tbl root').at? loc = some (.arr ys)) ∧ ∀ e ∈ R'.placed, ¬ e.1 <+: loc := by
  constructor
  · obtain ⟨grown, hext⟩ := h.grows
    obtain ⟨x', hx', hg⟩ := hext loc _ hat
    cases hg with
    | refl => exact ⟨xs, hx'⟩
    | arr _ | longer _ _ => exact ⟨_, hx'⟩
  · intro e he hpre
    rcases h.fresh e he with hold | hnone
    · exact hfree e hold hpre
    obtain ⟨r, rfl⟩ := hpre
    rw [Val.at?_append, hnone] at hat
    cases hat

theorem Ledger.elements_step (L : Ledger) (base : Path) (stmt : Stmt) (q : Path) :
    (L.step base stmt).elements q = L.elements q ∨ stmt = .arrayTable q := by
  cases stmt with
  | arrayTable path =>
    by_cases heq : q = path
    · exact .inr (by rw [heq])
    · exact .inl (if_neg heq)
  | _ => exact .inl rfl

theorem Ledger.declared_step (L : Ledger) (base : Path) (stmt : Stmt) (q : Path) :
    (L.step base stmt).declared q = L.declared q ∨
      (L.step base stmt).declared q = some (L.scope q) ∧ stmt = .table q := by
  cases stmt with
  | table path =>
    by_cases heq : q = path
    · subst heq
      exact .inr ⟨if_pos rfl, rfl⟩
    · exact .inl (if_neg heq)
  | _ => exact .inl rfl

/-- **One statement**: what stood goes on, and what the statement itself records is true. -/
theorem Accounts.step (h : Accounts stmts R L root) (ha : Advance stmt R R' root root')
    (hne : ∀ path, stmt = .arrayTable path → path ≠ []) (hdotted : ∀ q, (L.step base stmt).dotted q = L.dotted q
    ∨ (L.step base stmt).dotted q = some (L.scope q) ∧ ∃ loc ∈ R'.dotted, place? root' q = some loc) (hclosed :
    ∀ q, (L.step base stmt).closed q = L.closed q ∨ (L.step base stmt).closed q = some (L.scope q) ∧ InsideValue
    root' R' q) (harray : ∀ q, stmt = .arrayTable q → ∃ loc xs, place? root' q = some loc ∧ (Val.tbl root').at?
    loc = some (.arr xs) ∧ ∀ e ∈ R'.placed, ¬ e.1 <+: loc)
    (htable : ∀ q, stmt = .table q → ∃ loc ∈ R'.declared, locate root' q = some loc) :
    Accounts (stmts ++ [stmt]) R' (L.step base stmt) root' where
  known := by
    intro q hpos
    rcases L.elements_step base stmt q with hsame | hlast
    · exact mem_append_left _ (h.known q (hsame ▸ hpos))
    · exact mem_append_right _ (mem_singleton.mpr hlast.symm)
  read := by
    intro q hd
    rcases L.declared_step base stmt q with hsame | ⟨-, hlast⟩
    · exact mem_append_left _ (h.read q (hsame ▸ hd))
    · exact mem_append_right _ (mem_singleton.mpr hlast.symm)
  countedDeclared := h.countedDeclared.step fun q => (L.declared_step base stmt q).imp_right And.left
  countedDotted := h.countedDotted.step fun q => (hdotted q).imp_right And.left
  countedClosed := h.countedClosed.step fun q => (hclosed q).imp_right And.left
  arrays := by
    intro q hmem hst
    by_cases hlast : stmt = .arrayTable q
    · exact harray q hlast
    have hin : .arrayTable q ∈ stmts := by
      rcases mem_append.mp hmem with hin | hin
      · exact hin
      · exact absurd (mem_singleton.mp hin).symm hlast
    have hmoves : ¬ Moves stmt q := by
      rintro ⟨path, rfl, hpre⟩
      exact not_standing_of_element hin hlast hpre hst
    obtain ⟨loc, xs, hplace, hat, hfree⟩ := h.arrays q hin (hst.before hlast)
    obtain ⟨⟨ys, hys⟩, hfree'⟩ := ha.array hat hfree
    exact ⟨loc, ys, ha.place hmoves hplace, hys, hfree'⟩
  tables := by
    intro q hmem hst
    by_cases hlast : stmt = .table q
    · exact htable q hlast
    have hin : .table q ∈ stmts := by
      rcases mem_append.mp hmem with hin | hin
      · exact hin
      · exact absurd (mem_singleton.mp hin).symm hlast
    have hmoves : ¬ Moves stmt q := by
      rintro ⟨path, rfl, hpre⟩
      exact not_standing_of_element hin hlast hpre hst
    obtain ⟨loc, hloc, hq⟩ := h.tables q hin (hst.before hlast)
    exact ⟨loc, ha.declared loc hloc, ha.steady q loc hmoves hq⟩
  declared := by
    refine (h.declared.step h.countedDeclared h.known hne ?_).add fun q =>
      (L.declared_step base stmt q).imp_right fun hlast => htable q hlast.2
    rintro q hmoves ⟨loc, hloc, hq⟩
    exact ⟨loc, ha.declared loc hloc, ha.steady q loc hmoves hq⟩
  dotted := by
    refine (h.dotted.step h.countedDotted h.known hne ?_).add fun q => (hdotted q).imp_right And.right
    rintro q hmoves ⟨loc, hloc, hq⟩
    exact ⟨loc, ha.dotted loc hloc, ha.place hmoves hq⟩
  closed := by
    refine (h.closed.step h.countedClosed h.known hne ?_).add fun q => (hclosed q).imp_right And.right
    intro q hmoves hin
    exact ha.insideValue hmoves hin

end

/-! ## The statements one by one -/

theorem place?_concat {root : Table} {q : Path} {c : Loc} (h : locate root q = some c) (k : Bytes) :
    place? root (q ++ [k]) = some (c ++ [.key k]) := by
  unfold place?
  rw [getLast?_concat, dropLast_concat]
  dsimp only
  rw [h]
  rfl

mutual

theorem containerPaths_below {path q : Path} : (v : Val) → q ∈ containerPaths path v → path <+: q
  | .tbl es, h => by
      rcases mem_cons.mp h with rfl | h
      · exact prefix_refl _
      · exact entryPaths_below es h
  | .arr xs, h => by
      rcases mem_cons.mp h with rfl | h
      · exact prefix_refl _
      · exact elementPaths_below xs h

theorem entryPaths_below {path q : Path} :
    (es : List (Bytes × Val)) → q ∈ entryPaths path es → path <+: q
  | (key, child) :: es, h => by
      rcases mem_append.mp h with h | h
      · exact (prefix_append _ _).trans (containerPaths_below child h)
      · exact entryPaths_below es h

theorem elementPaths_below {path q : Path} : (xs : List Val) → q ∈ elementPaths path xs → path <+: q
  | .tbl es :: xs, h => by
      rcases mem_append.mp h with h | h
      · exact entryPaths_below es h
      · exact elementPaths_below xs h
  | .str _ :: xs, h | .int _ :: xs, h | .float _ :: xs, h | .bool _ :: xs, h | .dateTime _ :: xs, h
  | .arr _ :: xs, h => elementPaths_below xs h

end

/-- The record after a statement, whose own values are `now`. -/
def Record.add (R : Record) (doc : Doc) (stmt : Stmt) (doc' : Doc) (now : List (Loc × Val)) : Record :=
  ⟨R.declared ++ declaresAt doc stmt doc', R.dotted ++ passesAt doc stmt doc', R.placed ++ now⟩

section

variable {S : Path → Prop} {stmts : List Stmt} {R : Record} {L : Ledger} {doc doc' : Doc}

/-- A statement adds to the record. -/
theorem Record.advance {stmt : Stmt} {root root' : Table} {now : List (Loc × Val)}
    (hsteady : ∀ q loc, ¬ Moves stmt q → locate root q = some loc → locate root' q = some loc)
    (hgrows : ∃ grown, Extends grown (.tbl root) (.tbl root'))
    (hfresh : ∀ e ∈ now, (Val.tbl root).at? e.1 = none) : Advance stmt R (R.add doc stmt doc' now) root root' where
  steady := hsteady
  grows := hgrows
  declared _ hl := mem_append_left _ hl
  dotted _ hl := mem_append_left _ hl
  placed _ he := mem_append_left _ he
  fresh e he := (mem_append.mp he).imp id (hfresh e)

section

variable (h : Accounts stmts R L doc.root)
include h

/-- A statement without effect on the document. -/
theorem Accounts.idle {stmt : Stmt} (hidle : stmt = .comment ∨ ∃ k, stmt = .stray k) :
    Accounts (stmts ++ [stmt]) (R.add doc stmt doc []) (L.step doc.currentPath stmt) doc.root := by
  have ha : Advance stmt R (R.add doc stmt doc []) doc.root doc.root :=
    Record.advance (fun _ _ _ hq => hq) ⟨fun _ => False, fun l x hx => ⟨x, hx, .refl x⟩⟩ nofun
  rcases hidle with rfl | ⟨k, rfl⟩
  all_goals exact h.step ha (by simp) (fun _ => .inl rfl) (fun _ => .inl rfl) (by simp) (by simp)

theorem Accounts.table {path : Path} (hstep : doc.step (.table path) = .ok doc') :
    Accounts (stmts ++ [.table path]) (R.add doc (.table path) doc' [])
      (L.step doc.currentPath (.table path)) doc'.root := by
  obtain ⟨-, root, loc, hens, rfl⟩ := tableHeader_ok hstep
  obtain ⟨w, hE, -⟩ := tableHeader_effect hens
  have hmem : loc ∈ R.declared ++ (locate root path).toList := by
    rw [hE.leads]
    exact mem_append_right _ mem_cons_self
  refine h.step ?_ (by simp) (fun _ => .inl rfl) (fun _ => .inl rfl) (by simp) ?_
  · refine Record.advance (fun q l _ hq => ?_) ⟨_, hE.writes.keeps⟩ nofun
    exact hE.writes.keeps.locate_mono hq fun _ _ hf => hf
  · intro q hq
    cases hq
    exact ⟨loc, hmem, hE.leads⟩

theorem Accounts.arrayTable {path : Path} (hne : path ≠ []) (hstep : doc.step (.arrayTable path) = .ok doc')
    (hfree : ∀ c, doc'.current = some c → ∀ e ∈ R.placed, ¬ e.1 <+: c) :
    Accounts (stmts ++ [.arrayTable path]) (R.add doc (.arrayTable path) doc' [])
      (L.step doc.currentPath (.arrayTable path)) doc'.root := by
  obtain ⟨-, root, loc, happ, rfl⟩ := arrayTableHeader_ok hstep
  obtain ⟨c, name, i, hpath, hloc, hparent, -, hE⟩ := arrayTableHeader_effect hne happ
  have hfree := hfree loc rfl
  refine h.step ?_ (by rintro q hq; cases hq; exact hne) (fun _ => .inl rfl) (fun _ => .inl rfl) ?_ (by simp)
  · refine Record.advance (fun q l hmoves hq => ?_) ⟨_, hE.writes.keeps⟩ nofun
    -- only the array at `path` gets longer, and only paths below it lead through it
    refine hE.writes.keeps.locate_mono hq ?_
    rintro _ hpre rfl
    obtain ⟨before, hb, hbefore⟩ := locate_key hq hpre
    apply hmoves
    refine ⟨path, rfl, ?_⟩
    have hsame : before = path.dropLast := by rw [← locate_keys hbefore, locate_keys hparent]
    rw [hpath, ← hsame]
    exact hb
  · intro q hq
    cases hq
    have hput := hE.writes.put []
    rw [append_nil, hloc, show c ++ [Step.key name, .elem i] = (c ++ [.key name]) ++ [.elem i] by
      simp] at hput
    obtain ⟨x, hx, hxi⟩ := Val.at?_before hput
    obtain ⟨xs, rfl⟩ : ∃ xs, x = .arr xs := by
      cases x with
      | arr xs => exact ⟨xs, rfl⟩
      | _ => cases hxi
    refine ⟨c ++ [Step.key name], xs, ?_, hx, ?_⟩
    · rw [hpath]
      exact place?_concat hparent name
    intro e he hpre
    have he' : e ∈ R.placed := by simpa [Record.add] using he
    refine hfree e he' (hpre.trans ?_)
    rw [hloc]
    exact ⟨[.elem i], by simp⟩

theorem Accounts.keyValue {key : Path} {value : Val} {c : Loc} (hne : key ≠ []) (hcur : doc.current = some c)
    (hbase : locate doc.root doc.currentPath = some c) (hstep : doc.step (.keyValue key value) = .ok doc') :
    Accounts (stmts ++ [.keyValue key value])
      (R.add doc (.keyValue key value) doc' [(c ++ key.map .key, value)])
      (L.step doc.currentPath (.keyValue key value)) doc'.root := by
  obtain ⟨-, t, ht, rfl⟩ := keyValue_ok hcur hstep
  obtain ⟨hnone, hways, hE⟩ := assign_effect hne hbase ht
  -- the place of a prefix of the key
  have hplace : ∀ j < key.length,
      place? (((Val.tbl doc.root).setAt c (.tbl t)).tableAt []) (doc.currentPath ++ key.take (j + 1)) =
        some (c ++ (key.take (j + 1)).map .key) := by
    intro j hj
    rw [take_succ_eq_append_getElem hj, map_append, ← append_assoc, ← append_assoc]
    exact place?_concat (hways j hj) _
  refine h.step ?_ (by simp) ?_ ?_ (by simp) (by simp)
  · refine Record.advance (fun q l _ hq => ?_) ⟨_, hE.writes.keeps⟩ ?_
    · exact hE.writes.keeps.locate_mono hq fun _ _ hf => hf
    · intro e he
      rw [mem_singleton] at he
      subst he
      exact hnone
  · intro q
    by_cases hq : q ∈ Ledger.passed doc.currentPath key
    · refine .inr ⟨if_pos hq, ?_⟩
      obtain ⟨j, hj, rfl⟩ := mem_passed.mp hq
      refine ⟨c ++ (key.take (j + 1)).map .key, mem_append_right _ ?_, hplace j (by omega)⟩
      show _ ∈ (locate doc.root doc.currentPath).toList.flatMap _
      rw [hbase]
      refine mem_flatMap.mpr ⟨c, mem_cons_self, mem_map.mpr ⟨key.take (j + 1), ?_, rfl⟩⟩
      exact mem_passed.mpr ⟨j, hj, rfl⟩
    · exact .inl (if_neg hq)
  · intro q
    by_cases hq : q ∈ containerPaths (doc.currentPath ++ key) value
    · refine .inr ⟨if_pos hq, doc.currentPath ++ key, containerPaths_below value hq,
        (c ++ key.map .key, value), mem_append_right _ mem_cons_self, ?_⟩
      have hpos : 0 < key.length := length_pos_iff.mpr hne
      have := hplace (key.length - 1) (by omega)
      rwa [Nat.sub_add_cancel hpos, take_length] at this
    · exact .inl (if_neg hq)

end

end

/-! ## Runs -/

/-- **Along a run the maps and the tree agree.** -/
theorem Run.accounts {S : Path → Prop} (hS : Separate S) {s s' : DocState} {stmts : List Stmt}
    {toks : List RawToken} (hrun : Run s stmts toks s') {past : List Stmt} {R : Record}
    (h : Accounts past R L s.doc.root) (hfaith : s.doc.Faithful R.placed L) (hkeep : s.doc.Keeps S L)
    (hopen : s.doc.Unfiltered) (hw : StmtsWithin S stmts s.doc.currentPath) :
    ∃ placed L', placements s.doc stmts = some placed ∧
      s'.doc.Keeps S L' ∧ s'.doc.Faithful (R.placed ++ placed) L' ∧
      Accounts (past ++ stmts)
        ⟨R.declared ++ gather declaresAt s.doc stmts, R.dotted ++ gather passesAt s.doc stmts,
          R.placed ++ placed⟩ L' s'.doc.root := by
  induction hrun generalizing past R L with
  | nil => exact ⟨[], L, rfl, hkeep, by simpa using hfaith, by simpa [gather] using h⟩
  | @cons s s₁ s' stmt stmts toks more ht _ ih =>
    obtain ⟨now, hnow, hfaith₁⟩ := hfaith.step hS hkeep (fun _ _ => ht.key_ne_nil) hw.1 ht.doc
    obtain ⟨hkeep₁, hbase⟩ := hkeep.step hS hopen hw.1 ht.doc
    have hacc : Accounts (past ++ [stmt]) (R.add s.doc stmt s₁.doc now)
        (L.step s.doc.currentPath stmt) s₁.doc.root := by
      have hdoc := ht.doc
      cases stmt with
      | comment =>
        cases hnow
        rw [← Except.ok.inj hdoc]
        exact h.idle (.inl rfl)
      | stray k =>
        cases hnow
        rw [← Except.ok.inj hdoc]
        exact h.idle (.inr ⟨k, rfl⟩)
      | table path => cases hnow; exact h.table hdoc
      | arrayTable path =>
        cases hnow
        refine h.arrayTable (hS.nonempty path hw.1) hdoc ?_
        obtain ⟨c, hc, -, hfree⟩ := hfaith₁.current
        intro c' hc' e he
        rw [hc] at hc'
        cases hc'
        exact hfree e (mem_append_left _ he)
      | keyValue key value =>
        obtain ⟨c, hcur, hloc, -⟩ := hfaith.current
        have hone : now = [(c ++ key.map .key, value)] := by
          change (locate s.doc.root s.doc.currentPath).map _ = some now at hnow
          rw [hloc] at hnow
          cases hnow
          rfl
        rw [hone]
        exact h.keyValue (ht.key_ne_nil rfl) hcur hloc hdoc
    obtain ⟨placed, L', hplaced, hkeep', hfaith', hacc'⟩ :=
      ih hacc hfaith₁ hkeep₁ (Doc.step_unfiltered hopen ht.doc) (hbase ▸ hw.2)
    refine ⟨now ++ placed, L', placements_cons ht.doc hnow hplaced, hkeep', ?_, ?_⟩
    · rw [← append_assoc]
      exact hfaith'
    rw [gather, gather, ht.doc]
    dsimp only
    simpa [Record.add, append_assoc] using hacc'

/-! ## Rejections -/

/-- A value that is neither a table nor an array that ends with one. -/
def Val.Blocks : Val → Prop
  | .tbl _ => False
  | .arr xs => ∀ es, xs.getLast? ≠ some (.tbl es)
  | _ => True

variable {msg : String} {path : Path}

/-- A path cannot be followed or created only where something else stands on the way. -/
theorem ensureTableRaw_error {cur : Table} (h : ensureTableRaw cur path = .error msg) :
    ∃ before k c x, before ++ [k] <+: path ∧ locate cur before = some c ∧
      (Val.tbl cur).at? (c ++ [.key k]) = some x ∧ x.Blocks := by
  induction path generalizing cur with
  | nil => cases h
  | cons p ps ih =>
    -- below the first segment the rest of the path is blocked
    have hbelow : ∀ next way, Leads cur p next way → ensureTableRaw next ps = .error msg →
        ∃ before k c x, before ++ [k] <+: p :: ps ∧ locate cur before = some c ∧
          (Val.tbl cur).at? (c ++ [.key k]) = some x ∧ x.Blocks := by
      intro next way hlead hn
      obtain ⟨before, k, c, x, hb, hc, hx, hbl⟩ := ih hn
      refine ⟨p :: before, k, way ++ c, x, ?_, ?_, ?_, hbl⟩
      · exact cons_prefix_cons.mpr ⟨rfl, hb⟩
      · exact locate_cons_iff.mpr ⟨next, way, c, hlead, hc, rfl⟩
      · rw [append_assoc, Val.at?_append, hlead.at?]
        exact hx
    -- or the value of the first segment blocks it
    have hhere : ∀ x, get? cur p = some x → x.Blocks →
        ∃ before k c x, before ++ [k] <+: p :: ps ∧ locate cur before = some c ∧
          (Val.tbl cur).at? (c ++ [.key k]) = some x ∧ x.Blocks := by
      intro x hx hbl
      refine ⟨[], p, [], x, cons_prefix_cons.mpr ⟨rfl, nil_prefix⟩, rfl, ?_, hbl⟩
      rw [nil_append, Val.at?_cons, child?_key, hx]
      rfl
    unfold ensureTableRaw at h
    split at h
    · rename_i next hget
      cases hn : ensureTableRaw next ps with
      | ok r => rw [hn] at h; cases h
      | error msg' =>
        rw [hn] at h
        cases h
        exact hbelow next _ (.table hget) hn
    · rename_i xs hget
      split at h
      · rename_i next hlast
        cases hn : ensureTableRaw next ps with
        | ok r => rw [hn] at h; cases h
        | error msg' =>
          rw [hn] at h
          cases h
          exact hbelow next _ (.element hget hlast) hn
      · rename_i hlast
        exact hhere _ hget fun es he => hlast es he
    · rename_i x hnt hna hget
      refine hhere x hget ?_
      cases x with
      | tbl es => exact absurd rfl (hnt es)
      | arr xs => exact absurd rfl (hna xs)
      | _ => trivial
    · -- an empty table blocks nothing
      exfalso
      cases hn : ensureTableRaw [] ps with
      | ok r => rw [hn] at h; cases h
      | error msg' =>
        rw [hn] at h
        cases h
        obtain ⟨before, k, c, x, -, hc, hx, -⟩ := ih hn
        obtain ⟨-, rfl⟩ := locate_empty hc
        rw [nil_append, Val.at?_empty (by simp)] at hx
        cases hx

theorem appendArrayTableRaw_error {root : Table} (hne : path ≠ [])
    (h : appendArrayTableRaw root path = .error msg) :
    (∃ before k c x, before ++ [k] <+: path ∧ locate root before = some c ∧
      (Val.tbl root).at? (c ++ [.key k]) = some x ∧ x.Blocks) ∨
    ∃ c k x, path = path.dropLast ++ [k] ∧ locate root path.dropLast = some c ∧
      (Val.tbl root).at? (c ++ [.key k]) = some x ∧ ∀ xs, x ≠ .arr xs := by
  have hlast : path.getLast? = some (path.getLast hne) := getLast?_eq_some_getLast hne
  unfold appendArrayTableRaw at h
  rw [hlast] at h
  dsimp only at h
  split at h
  · rename_i msg' hens
    obtain ⟨before, k, c, x, hb, hrest⟩ := ensureTableRaw_error hens
    exact .inl ⟨before, k, c, x, hb.trans ( dropLast_prefix path), hrest⟩
  rename_i root₁ way hens
  split at h
  · rename_i msg' happ
    obtain ⟨es, hw, hleads, hwas⟩ := ensureTableRaw_writes hens
    have hput := hw.put []
    rw [append_nil] at hput
    rw [tableAt_of_at? hput] at happ
    -- a key that is taken belongs to a table that was there before
    unfold appendArrayTableKeyRaw at happ
    split at happ
    · cases happ
    · rename_i x hna hget
      rcases hwas with hs | ⟨-, he⟩
      · refine .inr ⟨way, path.getLast hne, x, (dropLast_concat_getLast hne).symm, ?_, ?_, ?_⟩
        · exact hw.keeps.locate_old hleads (by rw [hs]; simp)
        · rw [Val.at?_append, hs]
          show ((Val.tbl es).child? (.key _)).bind _ = _
          rw [child?_key, hget]
          rfl
        · rintro xs rfl
          exact hna xs rfl
      · cases he
        cases hget
    · cases happ
  · cases h

section

variable {P : List (Loc × Val)} {R : Record} {L : Ledger} {root : Table} {path : Path}

/-- What blocks a path is a value of a statement. -/
theorem Holds.value_of_blocks (h : Holds P L root) {l : Loc} {x : Val}
    (hx : (Val.tbl root).at? l = some x) (hb : x.Blocks) : ∃ e ∈ P, e.1 <+: l := by
  rcases h.keepsStatements.nothingElse l x hx with hin | ⟨es, rfl⟩ | ⟨xs, rfl, hne, hall⟩
  · exact hin
  · exact hb.elim
  · obtain ⟨es, hes⟩ := hall _ (getLast_mem hne)
    exact absurd (by rw [getLast?_eq_some_getLast hne, hes]) (hb es)

/-- A value above the place of a path is the value of a prefix of the path. -/
theorem Holds.insideValue (h : Holds R.placed L root) {e : Loc × Val} (he : e ∈ R.placed)
    {before : Path} {k : Bytes} {c : Loc} (hb : before ++ [k] <+: path)
    (hc : locate root before = some c) (hpre : e.1 <+: c ++ [.key k]) : InsideValue root R path := by
  rcases prefix_concat_iff.mp hpre with heq | hpre'
  · exact ⟨before ++ [k], hb, e, he, by rw [heq]; exact place?_concat hc k⟩
  obtain ⟨c', k', hck⟩ := h.keyed e he
  rw [hck] at hpre'
  obtain ⟨before', hb', hbefore'⟩ := locate_key hc hpre'
  refine ⟨before' ++ [k'], ?_, e, he, by rw [hck]; exact place?_concat hbefore' k'⟩
  exact (hb'.trans (prefix_append _ _)).trans hb

theorem Holds.insideValue_of_blocks (h : Holds R.placed L root) (hblock : ∃ before k c x, before ++ [k] <+: path
    ∧ locate root before = some c ∧ (Val.tbl root).at? (c ++ [.key k]) = some x ∧ x.Blocks) :
    InsideValue root R path := by
  obtain ⟨before, k, c, x, hb, hc, hx, hbl⟩ := hblock
  obtain ⟨e, he, hpre⟩ := h.value_of_blocks hx hbl
  exact h.insideValue he hb hc hpre

theorem eq_scope_of_here {m : Path → Option Scope} {q : Path} (h : L.here m q = true) :
    m q = some (L.scope q) := by
  unfold Ledger.here at h
  rwa [beq_iff_eq] at h

variable {stmts : List Stmt}

theorem Accounts.insideValue (h : Accounts stmts R L root) (hstand : AllStanding stmts path)
    (hin : L.insideClosed path = true) : InsideValue root R path := by
  obtain ⟨i, -, hr⟩ := any_eq_true.mp hin
  have hpre : path.take (i + 1) <+: path := take_prefix _ _
  obtain ⟨q, hq, hrest⟩ := h.closed _ (eq_scope_of_here hr) (hstand.shorter hpre)
  exact ⟨q, hq.trans hpre, hrest⟩

/-- A check that refuses `[path]` has found the table taken. -/
theorem Accounts.tableTaken (h : Accounts stmts R L root) (hstand : AllStanding stmts path)
    {msg : String} (hconf : L.tableConflict path = some msg) : TableTaken root R path := by
  unfold Ledger.tableConflict at hconf
  split at hconf
  · rename_i hel
    obtain ⟨loc, xs, hplace, hat, hfree⟩ := h.arrays path (h.known path hel) (hstand path (prefix_refl _))
    exact .array hplace hat hfree
  split at hconf
  · rename_i hd
    obtain ⟨loc, hloc, hplace⟩ := h.dotted path (eq_scope_of_here hd) hstand
    exact .dotted hplace hloc
  split at hconf
  · rename_i hin
    exact .inline (h.insideValue hstand hin)
  split at hconf
  · rename_i hd
    obtain ⟨loc, hloc, hq⟩ := h.declared path (eq_scope_of_here hd) hstand
    exact .declared hq hloc
  · cases hconf

/-- A check that refuses `[[path]]` has found the place taken. -/
theorem Accounts.arrayTaken (h : Accounts stmts R L root) (hstand : AllStanding stmts path)
    (htable : Standing stmts (.table path) path)
    {msg : String} (hconf : L.arrayTableConflict path = some msg) : ArrayTaken root R path := by
  unfold Ledger.arrayTableConflict at hconf
  split at hconf
  · rename_i hd
    obtain ⟨loc, hloc, hq⟩ := h.tables path (h.read path hd) htable
    exact .declared hq hloc
  split at hconf
  · rename_i hd
    obtain ⟨loc, hloc, hplace⟩ := h.dotted path (eq_scope_of_here hd) hstand
    exact .dotted hplace hloc
  split at hconf
  · rename_i hin
    exact .inline (h.insideValue hstand hin)
  · cases hconf

end

/-! ## Headers of a document -/

theorem tableHeader_error {doc : Doc} (h : doc.step (.table path) = .error msg) :
    doc.tableHeaderConflict path = some msg ∨ ensureTableRaw doc.root path = .error msg := by
  change doc.tableHeader id .all path = .error msg at h
  unfold Doc.tableHeader at h
  split at h
  · rename_i hconf
    cases h
    exact .inl hconf
  · rw [lookupPath_all] at h
    dsimp only at h
    split at h
    · rename_i hens
      cases h
      exact .inr hens
    · cases h

theorem arrayTableHeader_error {doc : Doc} (h : doc.step (.arrayTable path) = .error msg) :
    doc.arrayTableHeaderConflict path = some msg ∨ appendArrayTableRaw doc.root path = .error msg := by
  change doc.arrayTableHeader id .all path = .error msg at h
  unfold Doc.arrayTableHeader at h
  split at h
  · rename_i hconf
    cases h
    exact .inl hconf
  · rw [lookupPath_all] at h
    dsimp only at h
    rw [appendArrayTable_eq] at h
    split at h
    · rename_i happ
      cases h
      exact .inr happ
    · cases h

/-- **The statement loop stops at a header**: at `s` it reads `[path]`, or `[[path]]` if `array`, and does
    not go on. -/
def RejectsHeader (lower : Bytes → Bytes) (data : Bytes) (s : DocState) (array : Bool) (path : Path) :
    Prop :=
  ∃ tok d r, s.dec.readToken = (.ok tok, d) ∧
    tok.kind = (if array then .arrayTableHeader else .tableHeader) ∧
    keyPath (trimHeaderKey tok.bytes array) = .ok path ∧ documentTurn lower data .all s = .done r

section

variable {lower : Bytes → Bytes} {data : Bytes} {s : DocState} {array : Bool} {path : Path}
  {tok : RawToken} {d : Decoder}

/-- At a header the loop does what the statement does to the document. -/
theorem documentTurn_header (hread : s.dec.readToken = (.ok tok, d))
    (hkind : tok.kind = (if array then .arrayTableHeader else .tableHeader))
    (hkey : keyPath (trimHeaderKey tok.bytes array) = .ok path) :
    documentTurn lower data .all s =
      endStatement data tok d (s.doc.step (if array then .arrayTable path else .table path)) := by
  unfold documentTurn
  rw [hread]
  cases array with
  | false =>
    dsimp only
    rw [show tok.kind = .tableHeader from hkind]
    dsimp only [headerStatement]
    rw [hkey]
    dsimp only
    rw [tableHeader_all]
    rfl
  | true =>
    dsimp only
    rw [show tok.kind = .arrayTableHeader from hkind]
    dsimp only [headerStatement]
    rw [hkey]
    dsimp only
    rw [arrayTableHeader_all]
    rfl

theorem RejectsHeader.step (h : RejectsHeader lower data s array path) :
    ∃ msg, s.doc.step (if array then .arrayTable path else .table path) = .error msg := by
  obtain ⟨tok, d, r, hread, hkind, hkey, hdone⟩ := h
  rw [documentTurn_header hread hkind hkey] at hdone
  cases hstep : s.doc.step (if array then .arrayTable path else .table path) with
  | error msg => exact ⟨msg, rfl⟩
  | ok doc => rw [hstep] at hdone; cases hdone

theorem rejectsHeader_of_conflict (msg : String) (hread : s.dec.readToken = (.ok tok, d))
    (hkind : tok.kind = .tableHeader) (hkey : keyPath (trimHeaderKey tok.bytes false) = .ok path)
    (hconf : s.doc.tableHeaderConflict path = some msg) : RejectsHeader lower data s false path := by
  refine ⟨tok, d, .error (syntaxErrorForRawToken data tok msg), hread, hkind, hkey, ?_⟩
  rw [@documentTurn_header lower data s false path tok d hread hkind hkey]
  show endStatement data tok d (s.doc.tableHeader id .all path) = _
  unfold Doc.tableHeader
  rw [hconf]
  rfl

end

/-- The record of a list of statements. -/
def recordOf (stmts : List Stmt) (placed : List (Loc × Val)) : Record :=
  ⟨gather declaresAt (Doc.empty .all) stmts, gather createsAt (Doc.empty .all) stmts, placed⟩

/-- **A header is rejected only for the table its path denotes**, in every state that a run without NULs
    reaches and in which the arrays of tables above the path stand. A dotted key that went through the
    table must have created it, and for a `[[path]]` header the last `[path]` header must stand, too. -/
theorem rejectedHeaders (lower : Bytes → Bytes) (data : Bytes) (opts : List Decoder.DecoderOption)
    (stmts : List Stmt) (toks : List RawToken) (s : DocState) (hrun : Run (startState data opts) stmts toks s)
    (hw : StmtsWithin (fun p => p ≠ [] ∧ NulFree p) stmts []) (path : Path) (hpath : path ≠ [])
    (hnul : NulFree path) (hstand : AllStanding stmts path) (hdotted : ∀ loc, place? s.doc.root path = some loc
    → loc ∈ gather passesAt (Doc.empty .all) stmts → loc ∈ gather createsAt (Doc.empty .all) stmts) :
    ∃ placed, placements (Doc.empty .all) stmts = some placed ∧
      (RejectsHeader lower data s false path →
        TableTaken s.doc.root (recordOf stmts placed) path) ∧
      (Standing stmts (.table path) path → RejectsHeader lower data s true path →
        ArrayTaken s.doc.root (recordOf stmts placed) path) := by
  obtain ⟨placed, L, hplaced, hkeep, hfaith, hacc⟩ :=
    hrun.accounts separate_nulFree accounts_empty faithful_empty (keeps_empty _)
      (startState_unfiltered data opts) hw
  refine ⟨placed, hplaced, ?_, ?_⟩
  · intro hrej
    obtain ⟨msg, hmsg⟩ := hrej.step
    rcases tableHeader_error hmsg with hconf | hens
    · rw [hkeep.tableHeaderConflict separate_nulFree ⟨hpath, hnul⟩] at hconf
      exact (hacc.tableTaken hstand hconf).of_dotted hdotted
    · exact .inline (hfaith.holds.insideValue_of_blocks (ensureTableRaw_error hens))
  · intro htable hrej
    obtain ⟨msg, hmsg⟩ := hrej.step
    rcases arrayTableHeader_error hmsg with hconf | happ
    · rw [hkeep.arrayTableHeaderConflict separate_nulFree ⟨hpath, hnul⟩] at hconf
      exact (hacc.arrayTaken hstand htable hconf).of_dotted hdotted
    rcases appendArrayTableRaw_error hpath happ with hblock | ⟨c, k, x, hlast, hc, hx, hna⟩
    · exact .inline (hfaith.holds.insideValue_of_blocks hblock)
    cases x with
    | tbl es => exact .table (by rw [hlast]; exact place?_concat hc k) hx
    | arr xs => exact absurd rfl (hna xs)
    | _ =>
      refine .inline (hfaith.holds.insideValue_of_blocks ⟨path.dropLast, k, c, _, ?_, hc, hx, ?_⟩)
      · exact ⟨[], by rw [append_nil, ← hlast]⟩
      · trivial

/-- The document `[[a]]`, `[a.b]`, `[a.b]`: the second `[a.b]` is rejected, rightly. -/
theorem rejectedHeaders_duplicate :
    ∃ stmts toks s placed, Run (startState (ascii "[[a]]\n[a.b]\n[a.b]\n") []) stmts toks s ∧
      placements (Doc.empty .all) stmts = some placed ∧
      RejectsHeader id (ascii "[[a]]\n[a.b]\n[a.b]\n") s false [ascii "a", ascii "b"] ∧
      TableTaken s.doc.root (recordOf stmts placed) [ascii "a", ascii "b"] := by
  have hread₁ : (startState (ascii "[[a]]\n[a.b]\n[a.b]\n") []).dec.readToken =
      (.ok ⟨.arrayTableHeader, ascii "[[a]]", 0⟩, _) := Prod.ext (by decide +kernel) rfl
  have hkey₁ : keyPath (trimHeaderKey (ascii "[[a]]") true) = .ok [ascii "a"] := by decide +kernel
  have hrun₁ := (Run.nil _).snoc (.arrayTable hread₁ rfl hkey₁ rfl)
  have hread₂ : (startState (ascii "[[a]]\n[a.b]\n[a.b]\n") []).dec.readToken.2.readToken =
      (.ok ⟨.tableHeader, ascii "[a.b]", 6⟩, _) := Prod.ext (by decide +kernel) rfl
  have hkey₂ : keyPath (trimHeaderKey (ascii "[a.b]") false) = .ok [ascii "a", ascii "b"] := by
    decide +kernel
  have hrun₂ := hrun₁.snoc (.table hread₂ rfl hkey₂ rfl)
  have hread₃ : (startState (ascii "[[a]]\n[a.b]\n[a.b]\n") []).dec.readToken.2.readToken.2.readToken =
      (.ok ⟨.tableHeader, ascii "[a.b]", 12⟩, _) := Prod.ext (by decide +kernel) rfl
  have hw : StmtsWithin (fun p => p ≠ [] ∧ NulFree p)
      [.arrayTable [ascii "a"], .table [ascii "a", ascii "b"]] [] :=
    ⟨⟨by decide, by unfold NulFree; decide⟩, ⟨by decide, by unfold NulFree; decide⟩, trivial⟩
  have hstand : AllStanding [.arrayTable [ascii "a"], .table [ascii "a", ascii "b"]]
      [ascii "a", ascii "b"] := by
    intro q _ before after heq _ r _ hmem
    -- the only `[[a]]` comes first
    cases before with
    | nil =>
      cases heq
      simp at hmem
    | cons stmt before =>
      have htail := (List.cons.inj heq).2
      cases before with
      | nil => cases htail
      | cons stmt before => simp at htail
  obtain ⟨placed, hplaced, htaken, -⟩ := rejectedHeaders id _ _ _ _ _ hrun₂ hw _ (by decide)
    (by unfold NulFree; decide) hstand (by intro loc _ hmem; cases hmem)
  refine ⟨_, _, _, placed, hrun₂, hplaced, ?_⟩
  refine And.intro ?_ (htaken ?_)
  all_goals exact rejectsHeader_of_conflict "duplicate table" hread₃ rfl hkey₂ (by decide +kernel)

/-- The array of tables `a.b` belongs to the first element of `a`; the last header comes under the
    second. -/
def staleText : Bytes := ascii "[[a]]\n[[a.b]]\n[[a]]\n[a.b]\n"

/-- **A header under a new element is rejected because of an earlier element.** In the second and the third
    document it is a table of the earlier element that stands in the way, in the last one a table that a
    header created and a dotted key went through. -/
theorem not_rejectedHeaders_stale :
    parseDocument id staleText [] .all = .error (.syntaxErr
        { line := 4, col := 1, msg := "cannot redefine array table as table", span := (20, 25) }) ∧
      parseDocument id (ascii "[[a]]\n[a.b]\n[[a]]\n[[a.b]]\n") [] .all = .error (.syntaxErr
        { line := 4, col := 1, msg := "cannot redefine table as array table", span := (18, 25) }) ∧
      parseDocument id (ascii "[[a]]\n[[a.b]]\n[a.b.c]\n[[a]]\n[a.b.c]\n") [] .all =
        .error (.syntaxErr
          { line := 5, col := 1, msg := "duplicate table", span := (28, 35) }) ∧
      parseDocument id (ascii "[a.b.c]\n[a]\nb.x = 1\n[a.b]\n") [] .all = .error (.syntaxErr
        { line := 4, col := 1, msg := "cannot redefine dotted key table", span := (20, 25) }) ∧
      ∃ stmts toks s placed, Run (startState staleText []) stmts toks s ∧
        StmtsWithin (fun p => p ≠ [] ∧ NulFree p) stmts [] ∧
        placements (Doc.empty .all) stmts = some placed ∧
        RejectsHeader id staleText s false [ascii "a", ascii "b"] ∧
        ¬ TableTaken s.doc.root (recordOf stmts placed) [ascii "a", ascii "b"] := by
  refine ⟨by decide +kernel, by decide +kernel, by decide +kernel, by decide +kernel, ?_⟩
  have hread₁ : (startState staleText []).dec.readToken =
      (.ok ⟨.arrayTableHeader, ascii "[[a]]", 0⟩, _) := Prod.ext (by decide +kernel) rfl
  have hkey₁ : keyPath (trimHeaderKey (ascii "[[a]]") true) = .ok [ascii "a"] := by decide +kernel
  have hrun₁ := (Run.nil _).snoc (.arrayTable hread₁ rfl hkey₁ rfl)
  have hread₂ : (startState staleText []).dec.readToken.2.readToken =
      (.ok ⟨.arrayTableHeader, ascii "[[a.b]]", 6⟩, _) := Prod.ext (by decide +kernel) rfl
  have hkey₂ : keyPath (trimHeaderKey (ascii "[[a.b]]") true) = .ok [ascii "a", ascii "b"] := by
    decide +kernel
  have hrun₂ := hrun₁.snoc (.arrayTable hread₂ rfl hkey₂ rfl)
  have hread₃ : (startState staleText []).dec.readToken.2.readToken.2.readToken =
      (.ok ⟨.arrayTableHeader, ascii "[[a]]", 14⟩, _) := Prod.ext (by decide +kernel) rfl
  have hrun₃ := hrun₂.snoc (.arrayTable hread₃ rfl hkey₁ rfl)
  have hread₄ : (startState staleText []).dec.readToken.2.readToken.2.readToken.2.readToken =
      (.ok ⟨.tableHeader, ascii "[a.b]", 20⟩, _) := Prod.ext (by decide +kernel) rfl
  have hkey₄ : keyPath (trimHeaderKey (ascii "[a.b]") false) = .ok [ascii "a", ascii "b"] := by
    decide +kernel
  have ha : [ascii "a"] ≠ [] ∧ NulFree [ascii "a"] := ⟨by decide, by unfold NulFree; decide⟩
  have hab : [ascii "a", ascii "b"] ≠ [] ∧ NulFree [ascii "a", ascii "b"] :=
    ⟨by decide, by unfold NulFree; decide⟩
  refine ⟨_, _, _, [], hrun₃, ⟨ha, hab, ha, trivial⟩, rfl, ?_, ?_⟩
  · exact rejectsHeader_of_conflict "cannot redefine array table as table" hread₄ rfl hkey₄
      (by decide +kernel)
  intro htaken
  cases htaken with
  | declared _ hmem | dotted _ hmem => cases hmem
  | inline hin =>
    obtain ⟨q, -, e, he, -⟩ := hin
    cases he
  | array hplace hat =>
    cases hplace
    cases hat

end Pandaemonium.Toml
