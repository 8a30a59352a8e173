import Pandaemonium.Toml.Value

/-!
# `Toml.Sections` — which values get sections of their own (`marshal.go`)

The encoder of `map[string]any` writes a table under a header and an array of tables under headers in double
brackets, if `isArrayOfTablesAny` says so: when all its tables are empty, or when one of them holds a table
that is not. The second half is asked of `hasNonEmptyTableLikeDescendantAny`, which passes the question
down and has no case that answers it with yes: it is constantly false (`noDescendant`). So an array of
tables that are not all empty is always written on one line.
-/

namespace Pandaemonium.Toml

mutual

def hasNonEmptyTableLikeDescendantAny : Val → Bool
  | .tbl es => if es.isEmpty then false else containsNonEmptyTableLikeValueAny es
  | .arr xs => anyNonEmptyTableLikeDescendant xs
  | _ => false

/-- The loop over the values of a map, in any order. -/
def containsNonEmptyTableLikeValueAny : List (Bytes × Val) → Bool
  | [] => false
  | (_, child) :: es => hasNonEmptyTableLikeDescendantAny child || containsNonEmptyTableLikeValueAny es

/-- `slices.ContainsFunc(x, hasNonEmptyTableLikeDescendantAny)` -/
def anyNonEmptyTableLikeDescendant : List Val → Bool
  | [] => false
  | x :: xs => hasNonEmptyTableLikeDescendantAny x || anyNonEmptyTableLikeDescendant xs

end

/-- The loop of `isArrayOfTablesAny` with its flags; a value that is no map ends it. -/
def isArrayOfTablesAnyFrom (allEmpty hasNestedTable : Bool) : List Val → Bool
  | [] => allEmpty || hasNestedTable
  | .tbl es :: xs =>
    if es.isEmpty then isArrayOfTablesAnyFrom allEmpty hasNestedTable xs
    else isArrayOfTablesAnyFrom false (hasNestedTable || containsNonEmptyTableLikeValueAny es) xs
  | _ :: _ => false

def isArrayOfTablesAny : Val → Bool
  | .arr (x :: xs) => isArrayOfTablesAnyFrom true false (x :: xs)
  | _ => false

/-! ## Tables below a value -/

/-- `w` is `v`, or below it: a value of a map or an element of an array, at any depth. -/
inductive Occurs (w : Val) : Val → Prop
  | here : Occurs w w
  | value {es : List (Bytes × Val)} {k : Bytes} {v : Val} : (k, v) ∈ es → Occurs w v → Occurs w (.tbl es)
  | element {xs : List Val} {v : Val} : v ∈ xs → Occurs w v → Occurs w (.arr xs)

/-- Some map at or below `v` is not empty. -/
def HasTable (v : Val) : Prop := ∃ es, es ≠ [] ∧ Occurs (.tbl es) v

/-- Some map below the map `v` is not empty. -/
def HoldsTable (v : Val) : Prop := ∃ es k child, v = .tbl es ∧ (k, child) ∈ es ∧ HasTable child

/-- Every element is a map. -/
def AllMaps (xs : List Val) : Prop := ∀ x ∈ xs, ∃ es, x = .tbl es

/-! ## The test never answers yes -/

mutual

/-- **No value has a descendant by the test of the source.** -/
theorem noDescendant : ∀ v : Val, hasNonEmptyTableLikeDescendantAny v = false
  | .tbl es => by
      rw [hasNonEmptyTableLikeDescendantAny, noDescendant_values es]
      split <;> rfl
  | .arr xs => by rw [hasNonEmptyTableLikeDescendantAny, noDescendant_elements xs]
  | .str _ | .int _ | .float _ | .bool _ | .dateTime _ => by simp [hasNonEmptyTableLikeDescendantAny]

theorem noDescendant_values : ∀ es : List (Bytes × Val), containsNonEmptyTableLikeValueAny es = false
  | [] => by rw [containsNonEmptyTableLikeValueAny]
  | (_, child) :: es => by
      rw [containsNonEmptyTableLikeValueAny, noDescendant child, noDescendant_values es]
      rfl

theorem noDescendant_elements : ∀ xs : List Val, anyNonEmptyTableLikeDescendant xs = false
  | [] => by rw [anyNonEmptyTableLikeDescendant]
  | x :: xs => by
      rw [anyNonEmptyTableLikeDescendant, noDescendant x, noDescendant_elements xs]
      rfl

end

theorem isArrayOfTablesAnyFrom_empty {allEmpty : Bool} {xs : List Val}
    (h : isArrayOfTablesAnyFrom allEmpty false xs = true) : allEmpty = true ∧ ∀ x ∈ xs, x = .tbl [] := by
  induction xs generalizing allEmpty with
  | nil =>
    rw [isArrayOfTablesAnyFrom, Bool.or_false] at h
    exact ⟨h, List.forall_mem_nil _⟩
  | cons x xs ih =>
    cases x with
    | tbl es =>
      cases es with
      | nil =>
        obtain ⟨hempty, hrest⟩ := ih h
        exact ⟨hempty, List.forall_mem_cons.mpr ⟨rfl, hrest⟩⟩
      | cons e es =>
        rw [isArrayOfTablesAnyFrom, if_neg (by simp), noDescendant_values] at h
        cases (ih h).1
    | str s | int i | float bits | bool b | dateTime t | arr ys => simp [isArrayOfTablesAnyFrom] at h

/-- **Arrays of empty tables, and no others, get sections.** -/
theorem isArrayOfTablesAny_iff (xs : List Val) :
    isArrayOfTablesAny (.arr xs) = true ↔ xs ≠ [] ∧ ∀ x ∈ xs, x = .tbl [] := by
  cases xs with
  | nil => simp [isArrayOfTablesAny]
  | cons x xs =>
    refine ⟨fun h => ⟨by simp, (isArrayOfTablesAnyFrom_empty h).2⟩, fun ⟨_, h⟩ => ?_⟩
    rw [isArrayOfTablesAny, List.eq_replicate_of_mem h]
    generalize (x :: xs).length = n
    induction n with
    | zero => rfl
    | succ n ih => exact ih

/-- What the test is for: it finds the tables below a value, and an array of maps gets sections when one of
    its elements holds a table. -/
def DetectsTables (v : Val) : Prop :=
  (hasNonEmptyTableLikeDescendantAny v = true ↔ HasTable v) ∧
    ∀ xs, v = .arr xs → AllMaps xs → (∃ x ∈ xs, HoldsTable x) → isArrayOfTablesAny v = true

/-- **Nested tables are detected where there are none.** -/
theorem detectsTables_iff (v : Val) : DetectsTables v ↔ ¬ HasTable v := by
  constructor
  · rintro ⟨htest, -⟩ htable
    have hyes := htest.mpr htable
    rw [noDescendant] at hyes
    cases hyes
  · intro hnone
    refine ⟨?_, ?_⟩
    · rw [noDescendant]
      simp [hnone]
    · rintro xs rfl - ⟨x, hx, es, k, child, rfl, hchild, es', hne, hoccurs⟩
      exact absurd ⟨es', hne, .element hx (.value hchild hoccurs)⟩ hnone

/-- `[{a = {b = 1}}]`: a table inside the one element, and neither test sees it. -/
theorem nested_table_missed : let table : Val := .tbl [(ascii "b", .int 1)]
    let array : Val := .arr [.tbl [(ascii "a", table)]]
    HasTable table ∧ hasNonEmptyTableLikeDescendantAny table = false ∧
      HasTable array ∧ isArrayOfTablesAny array = false := by
  refine ⟨⟨_, by simp, .here⟩, noDescendant _, ⟨_, ?_, .element List.mem_cons_self .here⟩, ?_⟩
  · simp
  · decide

end Pandaemonium.Toml
