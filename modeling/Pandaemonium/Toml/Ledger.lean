import Pandaemonium.Toml.Paths
import Pandaemonium.Toml.Statements

/-!
# `Toml.Ledger` — the bookkeeping of tables, path by path

What the redefinition checks of the parser are meant to compare: a `Ledger` remembers for each path, not
for each string, in which scope it was declared, passed through by a dotted key or closed by a value, and
how many elements the array of tables at it has. `Doc.Keeps` says that the maps of the document hold just
that for the paths of a set `S`. Within a set whose paths are told apart by their strings, every check
answers as the ledger does, and every statement moves both alike (`Keeps.step`).
-/

namespace Pandaemonium.Toml

open List
open SortedMap (get?)

/-- What is known about the tables of a document, by path. -/
structure Ledger where
  /-- the scope a `[path]` header was last read in -/
  declared : Path → Option Scope
  /-- the scope a dotted key last passed through the table in -/
  dotted : Path → Option Scope
  /-- the scope a container value was last written in -/
  closed : Path → Option Scope
  /-- how many `[[path]]` headers were read -/
  elements : Path → Nat

namespace Ledger

def empty : Ledger := ⟨fun _ => none, fun _ => none, fun _ => none, fun _ => 0⟩

/-- The longest array of tables among the first `i` prefixes of `path`. -/
def scopeUpTo (L : Ledger) (path : Path) : Nat → Scope
  | 0 => none
  | i + 1 =>
    if 0 < L.elements (path.take (i + 1)) then
      some (path.take (i + 1), L.elements (path.take (i + 1)))
    else L.scopeUpTo path i

/-- **The scope `path` lies in.** -/
def scope (L : Ledger) (path : Path) : Scope := L.scopeUpTo path path.length

/-- `m` records `path` in the scope it has now. -/
def here (L : Ledger) (m : Path → Option Scope) (path : Path) : Bool := m path == some (L.scope path)

/-- A container value was written at a prefix of `path`. -/
def insideClosed (L : Ledger) (path : Path) : Bool :=
  (List.range path.length).any fun i => L.here L.closed (path.take (i + 1))

/-! ## Checks -/

def tableConflict (L : Ledger) (path : Path) : Option String :=
  if 0 < L.elements path then some "cannot redefine array table as table"
  else if L.here L.dotted path then some "cannot redefine dotted key table"
  else if L.insideClosed path then some "cannot extend inline table"
  else if L.here L.declared path then some "duplicate table"
  else none

def arrayTableConflict (L : Ledger) (path : Path) : Option String :=
  if (L.declared path).isSome then some "cannot redefine table as array table"
  else if L.here L.dotted path then some "cannot redefine dotted key table"
  else if L.insideClosed path then some "cannot extend inline table"
  else none

/-- The tables that `key` passes through below `base`. -/
def passed (base key : Path) : List Path :=
  (List.range ((base ++ key).length - (base.length + 1))).map fun j =>
    (base ++ key).take (base.length + 1 + j)

def dottedConflict (L : Ledger) (base key : Path) : Option String :=
  (passed base key).findSome? fun before =>
    if (L.declared before).isSome then some "cannot extend explicit table with dotted key"
    else if L.here L.closed before then some "cannot extend inline table"
    else none

/-! ## Entries -/

def declare (L : Ledger) (path : Path) : Ledger :=
  { L with declared := fun q => if q = path then some (L.scope path) else L.declared q }

def addElement (L : Ledger) (path : Path) : Ledger :=
  { L with elements := fun q => if q = path then L.elements path + 1 else L.elements q }

end Ledger

mutual

/-- The paths of the containers in a value; elements of an array lie at the path of the array. -/
def containerPaths (path : Path) : Val → List Path
  | .tbl es => path :: entryPaths path es
  | .arr xs => path :: elementPaths path xs
  | _ => []

def entryPaths (path : Path) : List (Bytes × Val) → List Path
  | [] => []
  | (key, child) :: es => containerPaths (path ++ [key]) child ++ entryPaths path es

def elementPaths (path : Path) : List Val → List Path
  | [] => []
  | .tbl es :: xs => entryPaths path es ++ elementPaths path xs
  | _ :: xs => elementPaths path xs

end

namespace Ledger

def assign (L : Ledger) (base key : Path) (value : Val) : Ledger :=
  { L with
    dotted := fun q => if q ∈ passed base key then some (L.scope q) else L.dotted q
    closed := fun q => if q ∈ containerPaths (base ++ key) value then some (L.scope q) else L.closed q }

/-- The ledger after a statement below the header `base`. -/
def step (L : Ledger) (base : Path) : Stmt → Ledger
  | .comment => L
  | .table path => L.declare path
  | .arrayTable path => L.addElement path
  | .keyValue key value => L.assign base key value
  | .stray _ => L

end Ledger

/-- The header a statement leaves the document below. -/
def Stmt.base (base : Path) : Stmt → Path
  | .comment => base
  | .table path => path
  | .arrayTable path => path
  | .keyValue _ _ => base
  | .stray _ => base

/-! ## Marks -/

/-- Record each of `paths` in the context it has. -/
def markPaths (epochs : Epochs) (m : Contexts) (paths : List Path) : Contexts :=
  paths.foldl (fun m q => (encodedKeyPath q, declarationContext q epochs) :: m) m

mutual

theorem markClosedValuePaths_eq (epochs : Epochs) (m : Contexts) (path : Path) :
    (v : Val) → markClosedValuePaths epochs m path v = markPaths epochs m (containerPaths path v)
  | .tbl es => markClosedEntries_eq epochs _ path es
  | .arr xs => markClosedElements_eq epochs _ path xs
  | .str _ | .int _ | .float _ | .bool _ | .dateTime _ => rfl

theorem markClosedEntries_eq (epochs : Epochs) (m : Contexts) (path : Path) :
    (es : List (Bytes × Val)) →
      markClosedEntries epochs m path es = markPaths epochs m (entryPaths path es)
  | [] => rfl
  | (key, child) :: es => by
      show markClosedEntries epochs (markClosedValuePaths epochs m (path ++ [key]) child) path es =
        markPaths epochs m (containerPaths (path ++ [key]) child ++ entryPaths path es)
      rw [markClosedValuePaths_eq, markClosedEntries_eq]
      exact foldl_append.symm

theorem markClosedElements_eq (epochs : Epochs) (m : Contexts) (path : Path) :
    (xs : List Val) →
      markClosedElements epochs m path xs = markPaths epochs m (elementPaths path xs)
  | [] => rfl
  | .tbl es :: xs => by
      show markClosedElements epochs (markClosedEntries epochs m path es) path xs =
        markPaths epochs m (entryPaths path es ++ elementPaths path xs)
      rw [markClosedEntries_eq, markClosedElements_eq]
      exact foldl_append.symm
  | .str _ :: xs | .int _ :: xs | .float _ :: xs | .bool _ :: xs | .dateTime _ :: xs
  | .arr _ :: xs => markClosedElements_eq epochs m path xs

end

theorem markDottedKeyTables_eq (m : Contexts) (base key : Path) (epochs : Epochs) :
    markDottedKeyTables m (base ++ key) base.length epochs =
      markPaths epochs m (Ledger.passed base key) := by
  unfold markDottedKeyTables markPaths Ledger.passed
  rw [foldl_map]

/-! ## The maps of the document keep a ledger -/

/-- **The maps of `doc` say what `L` says**, for the paths of `S`. -/
structure Doc.Keeps (S : Path → Prop) (doc : Doc) (L : Ledger) : Prop where
  declared : ∀ p, S p →
    get? doc.declaredTables (encodedKeyPath p) = (L.declared p).map encodeScope
  dotted : ∀ p, S p →
    get? doc.dottedKeyTables (encodedKeyPath p) = (L.dotted p).map encodeScope
  closed : ∀ p, S p →
    get? doc.closedInlineTables (encodedKeyPath p) = (L.closed p).map encodeScope
  elements : ∀ p, S p → (get? doc.arrayTableEpochs (encodedKeyPath p)).getD 0 = L.elements p
  arrays : ∀ p, S p → (doc.arrayTables.contains (encodedKeyPath p) = true ↔ 0 < L.elements p)
  within : ∀ p sc, L.declared p = some sc ∨ L.dotted p = some sc ∨ L.closed p = some sc →
    Scope.Within S sc

theorem keeps_empty (S : Path → Prop) : (Doc.empty .all).Keeps S Ledger.empty where
  declared := fun _ _ => rfl
  dotted := fun _ _ => rfl
  closed := fun _ _ => rfl
  elements := fun _ _ => rfl
  arrays := fun _ _ => by simp [Doc.empty, Ledger.empty]
  within := by
    rintro p sc (h | h | h) <;> cases h

section

variable {S : Path → Prop} {doc : Doc} {L : Ledger}

variable {p : Path}

theorem Separate.take (hS : Separate S) (hp : S p) (i : Nat) (hi : i < p.length) : S (p.take (i + 1)) := by
  refine hS.before (p.take (i + 1)) (p.drop (i + 1)) ?_ ?_
  · rwa [take_append_drop]
  intro h
  have := congrArg List.length h
  rw [length_take, length_nil] at this
  omega

theorem scopeUpTo_within (hS : Separate S) (hp : S p) (i : Nat) (hi : i ≤ p.length) :
    Scope.Within S (L.scopeUpTo p i) := by
  induction i with
  | zero => trivial
  | succ i ih =>
    unfold Ledger.scopeUpTo
    split
    · exact hS.take hp i hi
    · exact ih (by omega)

theorem scope_within (hS : Separate S) (hp : S p) : Scope.Within S (L.scope p) :=
  scopeUpTo_within hS hp _ (Nat.le_refl _)

section

variable (h : doc.Keeps S L)
include h

section

variable (hS : Separate S)
include hS

/-- A context is the string of the scope. -/
theorem Doc.Keeps.declarationContext (hp : S p) :
    declarationContext p doc.arrayTableEpochs = encodeScope (L.scope p) := by
  have key : ∀ i ≤ p.length,
      declarationContextUpTo doc.arrayTableEpochs p i = encodeScope (L.scopeUpTo p i) := by
    intro i hi
    induction i with
    | zero => rfl
    | succ i ih =>
      have he := h.elements _ (hS.take hp i hi)
      unfold declarationContextUpTo Ledger.scopeUpTo
      dsimp only
      rw [he]
      by_cases hpos : 0 < L.elements (p.take (i + 1))
      · rw [if_pos hpos, if_pos hpos]
        rfl
      · rw [if_neg hpos, if_neg hpos]
        exact ih (by omega)
  exact key _ (Nat.le_refl _)

/-- A lookup under the present context is a lookup under the present scope. -/
theorem Doc.Keeps.recordedHere {m : Contexts} {lm : Path → Option Scope} (hp : S p)
    (hm : get? m (encodedKeyPath p) = (lm p).map encodeScope) (hw : ∀ sc, lm p = some sc → Scope.Within S sc) :
    recordedHere m p doc.arrayTableEpochs = L.here lm p := by
  unfold Toml.recordedHere Ledger.here
  rw [hm, h.declarationContext hS hp]
  cases hl : lm p with
  | none => rfl
  | some sc =>
    rw [Bool.eq_iff_iff, beq_iff_eq, beq_iff_eq, Option.map_some, Option.some.injEq, Option.some.injEq]
    exact hS.encodeScope_inj (hw sc hl) (scope_within hS hp)

theorem Doc.Keeps.dottedHere (hp : S p) :
    Toml.recordedHere doc.dottedKeyTables p doc.arrayTableEpochs = L.here L.dotted p :=
  h.recordedHere hS hp (h.dotted p hp) fun sc hsc => h.within p sc (.inr (.inl hsc))

theorem Doc.Keeps.closedHere (hp : S p) :
    Toml.recordedHere doc.closedInlineTables p doc.arrayTableEpochs = L.here L.closed p :=
  h.recordedHere hS hp (h.closed p hp) fun sc hsc => h.within p sc (.inr (.inr hsc))

theorem Doc.Keeps.declaredHere (hp : S p) :
    Toml.recordedHere doc.declaredTables p doc.arrayTableEpochs = L.here L.declared p :=
  h.recordedHere hS hp (h.declared p hp) fun sc hsc => h.within p sc (.inl hsc)

theorem Doc.Keeps.insideClosed (hp : S p) :
    closedInlinePrefix p doc.closedInlineTables doc.arrayTableEpochs = L.insideClosed p := by
  have hcheck : ∀ i ∈ List.range p.length,
      Toml.recordedHere doc.closedInlineTables (p.take (i + 1)) doc.arrayTableEpochs =
        L.here L.closed (p.take (i + 1)) := by
    intro i hi
    exact h.closedHere hS (hS.take hp i (mem_range.mp hi))
  unfold closedInlinePrefix Ledger.insideClosed
  rw [Bool.eq_iff_iff, any_eq_true, any_eq_true]
  constructor
  · rintro ⟨i, hi, hr⟩; exact ⟨i, hi, (hcheck i hi).symm.trans hr⟩
  · rintro ⟨i, hi, hr⟩; exact ⟨i, hi, (hcheck i hi).trans hr⟩

end

end

/-! ## The checks -/

theorem Doc.Keeps.tableHeaderConflict (h : doc.Keeps S L) (hS : Separate S) (hp : S p) :
    doc.tableHeaderConflict p = L.tableConflict p := by
  unfold Doc.tableHeaderConflict Ledger.tableConflict
  rw [h.dottedHere hS hp, h.insideClosed hS hp, h.declaredHere hS hp]
  by_cases ha : 0 < L.elements p
  · rw [if_pos ha, if_pos ((h.arrays p hp).mpr ha)]
  · rw [if_neg ha, if_neg (fun hc => ha ((h.arrays p hp).mp hc))]

theorem Doc.Keeps.arrayTableHeaderConflict (h : doc.Keeps S L) (hS : Separate S) (hp : S p) :
    doc.arrayTableHeaderConflict p = L.arrayTableConflict p := by
  unfold Doc.arrayTableHeaderConflict Ledger.arrayTableConflict
  rw [h.dottedHere hS hp, h.insideClosed hS hp, h.declared p hp, Option.isSome_map]

theorem mem_passed {base key q : Path} :
    q ∈ Ledger.passed base key ↔ ∃ j, j + 1 < key.length ∧ q = base ++ key.take (j + 1) := by
  unfold Ledger.passed
  rw [mem_map]
  constructor
  · rintro ⟨j, hj, rfl⟩
    rw [mem_range, length_append] at hj
    refine ⟨j, by omega, ?_⟩
    rw [Nat.add_assoc, take_length_add_append, Nat.add_comm 1 j]
  · rintro ⟨j, hj, rfl⟩
    refine ⟨j, ?_, ?_⟩
    · rw [mem_range, length_append]; omega
    · rw [Nat.add_assoc, take_length_add_append, Nat.add_comm 1 j]

/-- The tables a key of `S` passes through lie in `S`. -/
theorem Separate.passed (hS : Separate S) {base key q : Path} (hk : S (base ++ key))
    (hq : q ∈ Ledger.passed base key) : S q := by
  obtain ⟨j, hj, rfl⟩ := mem_passed.mp hq
  refine hS.before _ (key.drop (j + 1)) ?_ ?_
  · rwa [append_assoc, take_append_drop]
  intro h
  have := congrArg List.length h
  rw [length_append, length_take, length_nil] at this
  omega

theorem findSome?_congr_mem {α β : Type} {f g : α → Option β} {l : List α}
    (h : ∀ x ∈ l, f x = g x) : l.findSome? f = l.findSome? g := by
  induction l with
  | nil => rfl
  | cons x l ih =>
    rw [findSome?_cons, findSome?_cons, h x mem_cons_self, ih fun y hy => h y (mem_cons_of_mem _ hy)]

theorem Doc.Keeps.dottedKeyConflict (h : doc.Keeps S L) (hS : Separate S) {key : Path}
    (hk : S (doc.currentPath ++ key)) : doc.dottedKeyConflict key = L.dottedConflict doc.currentPath key := by
  -- the source walks over the same tables by their number of segments
  have hwalk : doc.dottedKeyConflict key =
      (Ledger.passed doc.currentPath key).findSome? fun before =>
        if (get? doc.declaredTables (encodedKeyPath before)).isSome then
          some "cannot extend explicit table with dotted key"
        else if Toml.recordedHere doc.closedInlineTables before doc.arrayTableEpochs then
          some "cannot extend inline table"
        else none := by
    unfold Doc.dottedKeyConflict Ledger.passed
    rw [findSome?_map]
    rfl
  rw [hwalk]
  apply findSome?_congr_mem
  intro q hq
  rw [h.declared q (hS.passed hk hq), Option.isSome_map, h.closedHere hS (hS.passed hk hq)]

/-! ## The entries -/

/-- Marks are found under the paths that were marked. -/
theorem get?_markPaths (hS : Separate S) {epochs : Epochs} {m : Contexts} {paths : List Path}
    (hpaths : ∀ q ∈ paths, S q) (hp : S p) :
    get? (markPaths epochs m paths) (encodedKeyPath p) =
      if p ∈ paths then some (declarationContext p epochs) else get? m (encodedKeyPath p) := by
  induction paths generalizing m with
  | nil => rfl
  | cons q paths ih =>
    have hq := hpaths q mem_cons_self
    show get? (markPaths epochs ((encodedKeyPath q, declarationContext q epochs) :: m) paths) _ = _
    rw [ih fun r hr => hpaths r (mem_cons_of_mem _ hr)]
    by_cases hmem : p ∈ paths
    · rw [if_pos hmem, if_pos (mem_cons_of_mem _ hmem)]
    rw [if_neg hmem]
    by_cases heq : p = q
    · subst heq
      rw [if_pos mem_cons_self, SortedMap.get?_cons_self]
    have hne : encodedKeyPath q ≠ encodedKeyPath p := fun h => heq ((hS.inj hq hp).mp h).symm
    rw [SortedMap.get?_cons_ne hne, if_neg]
    intro hc
    rcases mem_cons.mp hc with h | h
    · exact heq h
    · exact hmem h

/-- The paths a statement below `base` mentions lie in `S`. -/
def Stmt.Within (S : Path → Prop) (base : Path) : Stmt → Prop
  | .comment => True
  | .table path => S path
  | .arrayTable path => S path
  | .keyValue key value => S (base ++ key) ∧ ∀ q ∈ containerPaths (base ++ key) value, S q
  | .stray _ => True

theorem Doc.Keeps.declare (h : doc.Keeps S L) (hS : Separate S) {path : Path} (hp : S path)
    (root : Table) (loc : Loc) :
    Doc.Keeps S { doc.enter root loc path .all with
      declaredTables :=
        (encodedKeyPath path, Toml.declarationContext path doc.arrayTableEpochs) ::
          doc.declaredTables } (L.declare path) where
  declared := by
    intro q hq
    show get? ((encodedKeyPath path, _) :: doc.declaredTables) _ =
      (if q = path then some (L.scope path) else L.declared q).map encodeScope
    by_cases heq : q = path
    · subst heq
      rw [SortedMap.get?_cons_self, if_pos rfl, h.declarationContext hS hq]
      rfl
    · have hne : encodedKeyPath path ≠ encodedKeyPath q := fun h => heq ((hS.inj hp hq).mp h).symm
      rw [SortedMap.get?_cons_ne hne, if_neg heq]
      exact h.declared q hq
  dotted := h.dotted
  closed := h.closed
  elements := h.elements
  arrays := h.arrays
  within := by
    rintro q sc (hd | hrest)
    · change (if q = path then some (L.scope path) else L.declared q) = some sc at hd
      split at hd
      · cases hd; exact scope_within hS hp
      · exact h.within q sc (.inl hd)
    · exact h.within q sc (.inr hrest)

theorem Doc.Keeps.addElement (h : doc.Keeps S L) (hS : Separate S) {path : Path} (hp : S path) (root : Table)
    (loc : Loc) : Doc.Keeps S ((doc.bumpEpoch path).enter root loc path .all) (L.addElement path) where
  declared := h.declared
  dotted := h.dotted
  closed := h.closed
  within := h.within
  elements := by
    intro q hq
    show (get? ((encodedKeyPath path, _) :: doc.arrayTableEpochs) _).getD 0 =
      if q = path then L.elements path + 1 else L.elements q
    by_cases heq : q = path
    · subst heq
      rw [SortedMap.get?_cons_self, if_pos rfl, h.elements q hq]
      rfl
    · have hne : encodedKeyPath path ≠ encodedKeyPath q := fun h => heq ((hS.inj hp hq).mp h).symm
      rw [SortedMap.get?_cons_ne hne, if_neg heq]
      exact h.elements q hq
  arrays := by
    intro q hq
    show (encodedKeyPath path :: doc.arrayTables).contains _ = true ↔
      0 < if q = path then L.elements path + 1 else L.elements q
    rw [contains_cons, Bool.or_eq_true, beq_iff_eq, h.arrays q hq, hS.inj hq hp]
    by_cases heq : q = path
    all_goals simp [heq]

theorem Doc.Keeps.assign (h : doc.Keeps S L) (hS : Separate S) {key : Path} {value : Val}
    (hk : S (doc.currentPath ++ key))
    (hv : ∀ q ∈ containerPaths (doc.currentPath ++ key) value, S q) (root : Table) :
    Doc.Keeps S { doc with
      root := root
      dottedKeyTables :=
        markDottedKeyTables doc.dottedKeyTables (doc.currentPath ++ key) doc.currentPath.length
          doc.arrayTableEpochs
      closedInlineTables :=
        markClosedValuePaths doc.arrayTableEpochs doc.closedInlineTables (doc.currentPath ++ key)
          value } (L.assign doc.currentPath key value) where
  declared := h.declared
  elements := h.elements
  arrays := h.arrays
  dotted := by
    intro q hq
    show get? (markDottedKeyTables _ _ _ _) _ =
      (if q ∈ Ledger.passed doc.currentPath key then some (L.scope q) else L.dotted q).map encodeScope
    rw [markDottedKeyTables_eq, get?_markPaths hS (fun r hr => hS.passed hk hr) hq]
    split
    · rw [h.declarationContext hS hq]; rfl
    · exact h.dotted q hq
  closed := by
    intro q hq
    show get? (markClosedValuePaths _ _ _ _) _ =
      (if q ∈ containerPaths (doc.currentPath ++ key) value then some (L.scope q)
        else L.closed q).map encodeScope
    rw [markClosedValuePaths_eq, get?_markPaths hS hv hq]
    split
    · rw [h.declarationContext hS hq]; rfl
    · exact h.closed q hq
  within := by
    rintro q sc (hd | hd | hd)
    · exact h.within q sc (.inl hd)
    · change (if q ∈ Ledger.passed doc.currentPath key then some (L.scope q) else L.dotted q) = some sc at hd
      split at hd
      · rename_i hq
        cases hd
        exact scope_within hS (hS.passed hk hq)
      · exact h.within q sc (.inr (.inl hd))
    · change (if q ∈ containerPaths (doc.currentPath ++ key) value then some (L.scope q)
        else L.closed q) = some sc at hd
      split at hd
      · rename_i hq
        cases hd
        exact scope_within hS (hv q hq)
      · exact h.within q sc (.inr (.inr hd))

/-- **A statement moves the maps and the ledger alike.** -/
theorem Doc.Keeps.step (h : doc.Keeps S L) (hS : Separate S) (hopen : doc.Unfiltered) {stmt : Stmt}
    {doc' : Doc} (hw : stmt.Within S doc.currentPath) (hstep : doc.step stmt = .ok doc') :
    doc'.Keeps S (L.step doc.currentPath stmt) ∧ doc'.currentPath = stmt.base doc.currentPath := by
  cases stmt with
  | comment | stray k => cases hstep; exact ⟨h, rfl⟩
  | table path =>
    obtain ⟨-, root, loc, -, rfl⟩ := tableHeader_ok hstep
    exact ⟨h.declare hS hw root loc, rfl⟩
  | arrayTable path =>
    obtain ⟨-, root, loc, -, rfl⟩ := arrayTableHeader_ok hstep
    exact ⟨h.addElement hS hw root loc, rfl⟩
  | keyValue key value =>
    obtain ⟨⟨loc, hloc⟩, -⟩ := hopen
    obtain ⟨-, t, -, rfl⟩ := keyValue_ok hloc hstep
    exact ⟨h.assign hS hw.1 hw.2 _, rfl⟩

end

/-! ## Scopes -/

/-- The scope of a path depends on the arrays of tables above it. -/
theorem Ledger.scope_congr {L L' : Ledger} {q : Path}
    (h : ∀ r, r <+: q → L'.elements r = L.elements r) : L'.scope q = L.scope q := by
  have key : ∀ i, L'.scopeUpTo q i = L.scopeUpTo q i := by
    intro i
    induction i with
    | zero => rfl
    | succ i ih =>
      unfold Ledger.scopeUpTo
      rw [h _ ( take_prefix _ _), ih]
  exact key _

theorem Ledger.scope_declare (L : Ledger) (path q : Path) : (L.declare path).scope q = L.scope q :=
  Ledger.scope_congr fun _ _ => rfl

theorem Ledger.scope_assign (L : Ledger) (base key q : Path) (value : Val) :
    (L.assign base key value).scope q = L.scope q :=
  Ledger.scope_congr fun _ _ => rfl

/-- A new element changes the scope of the paths below it only. -/
theorem Ledger.scope_addElement {L : Ledger} {path q : Path} (h : ¬ path <+: q) :
    (L.addElement path).scope q = L.scope q := by
  refine Ledger.scope_congr fun r hr => if_neg ?_
  rintro rfl
  exact h hr

/-! ## Runs -/

/-- The ledger and the header after a list of statements. -/
def Ledger.after : List Stmt → Ledger × Path → Ledger × Path
  | [], s => s
  | stmt :: stmts, s => Ledger.after stmts (s.1.step s.2 stmt, stmt.base s.2)

/-- Every statement mentions paths of `S` only. -/
def StmtsWithin (S : Path → Prop) : List Stmt → Path → Prop
  | [], _ => True
  | stmt :: stmts, base => stmt.Within S base ∧ StmtsWithin S stmts (stmt.base base)

/-- **Along a run the maps of the document keep the ledger of its statements.** -/
theorem Run.keeps {S : Path → Prop} (hS : Separate S) {s s' : DocState} {stmts : List Stmt}
    {toks : List RawToken} (hrun : Run s stmts toks s') {L : Ledger} (h : s.doc.Keeps S L)
    (hopen : s.doc.Unfiltered) (hw : StmtsWithin S stmts s.doc.currentPath) :
    s'.doc.Keeps S (Ledger.after stmts (L, s.doc.currentPath)).1 ∧
      s'.doc.currentPath = (Ledger.after stmts (L, s.doc.currentPath)).2 := by
  induction hrun generalizing L with
  | nil => exact ⟨h, rfl⟩
  | @cons s s₁ s' stmt stmts toks more ht _ ih =>
    obtain ⟨hkeep, hbase⟩ := h.step hS hopen hw.1 ht.doc
    have := ih hkeep (Doc.step_unfiltered hopen ht.doc) (hbase ▸ hw.2)
    rw [hbase] at this
    exact this

end Pandaemonium.Toml
